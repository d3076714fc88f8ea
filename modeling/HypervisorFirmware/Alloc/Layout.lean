import Mathlib.Algebra.Group.Nat.Defs
import HypervisorFirmware.Alloc.MemoryMap
import HypervisorFirmware.Foundation.Span

/-! # Where regions lie

The bytes that a region describes, and what cutting and joining regions does
to the map from bytes to memory types. Below `2^64` the wrapping arithmetic of
the source agrees with arithmetic on natural numbers. -/

namespace HypervisorFirmware.Alloc

open Efi

theorem pageSize_toNat : pageSize.toNat = 4096 := rfl

namespace Region

section

variable (region : Region)

def bottom : Nat := region.physicalStart.toNat

def top : Nat := region.bottom + 4096 * region.numberOfPages.toNat

def span : Span UInt32 where
  lower := region.bottom
  upper := region.top
  label := region.type
  ordered := Nat.le_add_right _ _

@[simp] theorem span_lower : region.span.lower = region.bottom := rfl

@[simp] theorem span_upper : region.span.upper = region.top := rfl

@[simp] theorem span_label : region.span.label = region.type := rfl

end

theorem end_toNat {region : Region} (below : region.top < 2 ^ 64) :
    (region.physicalStart + pageSize * region.numberOfPages).toNat = region.top := by
  unfold top bottom at below
  rw [UInt64.toNat_add, UInt64.toNat_mul, pageSize_toNat]
  unfold top bottom
  omega

/-! ## Cutting -/

section

variable (pages : UInt64) (region : Region)

@[simp] theorem bottom_firstPages :
    (region.firstPages pages).bottom = region.bottom := rfl

@[simp] theorem top_firstPages :
    (region.firstPages pages).top = region.bottom + 4096 * pages.toNat := rfl

@[simp] theorem type_dropPages :
    (region.dropPages pages).type = region.type := rfl

end

variable {pages : UInt64}

theorem numberOfPages_dropPages {region : Region}
    (fewer : pages.toNat ≤ region.numberOfPages.toNat) :
    (region.dropPages pages).numberOfPages.toNat = region.numberOfPages.toNat - pages.toNat :=
  UInt64.toNat_sub_of_le _ _ (UInt64.le_iff_toNat_le.mpr fewer)

theorem bottom_dropPages {region : Region} (below : region.top < 2 ^ 64)
    (fewer : pages.toNat ≤ region.numberOfPages.toNat) :
    (region.dropPages pages).bottom = region.bottom + 4096 * pages.toNat := by
  unfold top bottom at below
  unfold bottom dropPages
  simp only [UInt64.toNat_add, UInt64.toNat_mul, pageSize_toNat]
  omega

theorem top_dropPages {region : Region} (below : region.top < 2 ^ 64)
    (fewer : pages.toNat ≤ region.numberOfPages.toNat) :
    (region.dropPages pages).top = region.top := by
  rw [top, bottom_dropPages below fewer, numberOfPages_dropPages fewer, top]
  omega

variable (memoryType : MemoryType) (region : Region)

@[simp] theorem bottom_assign :
    (region.assign memoryType).bottom = region.bottom := rfl

@[simp] theorem top_assign :
    (region.assign memoryType).top = region.top := rfl

@[simp] theorem type_assign :
    (region.assign memoryType).type = memoryType.toUInt32 := rfl

@[simp] theorem top_withType :
    (region.withType memoryType).top = region.top := rfl

@[simp] theorem type_withType :
    (region.withType memoryType).type = memoryType.toUInt32 := rfl

end Region

/-! ## Requests -/

/-- An `AllocateAddress` request names only bytes below `2^64`. -/
def Bounded (allocateType : AllocateType) (pageCount address : UInt64) : Prop :=
  allocateType = .allocateAddress → address.toNat + 4096 * pageCount.toNat < 2 ^ 64

theorem bounded_anyPages (pageCount address : UInt64) :
    Bounded .allocateAnyPages pageCount address := by
  intro impossible
  cases impossible

structure Region.Fits (region : Region) (allocateType : AllocateType)
    (pageCount address : UInt64) : Prop where
  pages : pageCount.toNat ≤ region.numberOfPages.toNat
  lower : allocateType = .allocateAddress → region.bottom ≤ address.toNat
  upper : allocateType = .allocateAddress →
    address.toNat + 4096 * pageCount.toNat ≤ region.top

variable {address pageCount : UInt64} {allocateType : AllocateType}

theorem Region.conventional_of_canServe {region : Region}
    (serves : region.canServe allocateType pageCount address = true) :
    region.type = MemoryType.conventionalMemory.toUInt32 := by
  unfold canServe isConventional at serves
  rw [Bool.and_eq_true] at serves
  exact eq_of_beq serves.1

theorem Region.fits_of_canServe {region : Region} (below : region.top < 2 ^ 64)
    (bounded : Bounded allocateType pageCount address)
    (serves : region.canServe allocateType pageCount address = true) :
    region.Fits allocateType pageCount address := by
  unfold canServe at serves
  rw [Bool.and_eq_true] at serves
  cases allocateType with
  | allocateAddress =>
    have inRange := bounded rfl
    have tests := serves.2
    simp only [Bool.and_eq_true, decide_eq_true_eq] at tests
    have lower := UInt64.le_iff_toNat_le.mp tests.1
    have upper := UInt64.le_iff_toNat_le.mp tests.2
    rw [Region.end_toNat below, UInt64.toNat_add, UInt64.toNat_mul, pageSize_toNat] at upper
    have requestEnd : address.toNat + 4096 * pageCount.toNat ≤ region.top := by omega
    refine ⟨?_, fun _ => lower, fun _ => requestEnd⟩
    unfold Region.top Region.bottom at requestEnd
    omega
  | allocateAnyPages =>
    have tests := serves.2
    simp only [Bool.and_eq_true, decide_eq_true_eq] at tests
    exact ⟨UInt64.le_iff_toNat_le.mp tests.1, nofun, nofun⟩
  | allocateMaxAddress =>
    have tests := serves.2
    simp only [Bool.and_eq_true, decide_eq_true_eq] at tests
    exact ⟨UInt64.le_iff_toNat_le.mp tests.1, nofun, nofun⟩

theorem Region.Fits.pages_before {region : Region}
    (fits : region.Fits .allocateAddress pageCount address) :
    ((address - region.physicalStart) / pageSize).toNat + pageCount.toNat ≤
      region.numberOfPages.toNat := by
  have lower := fits.lower rfl
  have upper := fits.upper rfl
  have offset : (address - region.physicalStart).toNat = address.toNat - region.bottom :=
    UInt64.toNat_sub_of_le _ _ (UInt64.le_iff_toNat_le.mpr lower)
  rw [UInt64.toNat_div, offset, pageSize_toNat]
  unfold Region.top at upper
  omega

def Granted (result : Status × UInt64) (pageCount : UInt64) (byte : Nat) : Prop :=
  result.1 = .success ∧ result.2.toNat ≤ byte ∧
    byte < result.2.toNat + 4096 * pageCount.toNat

instance (result : Status × UInt64) (pageCount : UInt64) (byte : Nat) :
    Decidable (Granted result pageCount byte) :=
  inferInstanceAs (Decidable (_ ∧ _))

/-- The pieces fill the place of the region they are cut from; the bytes handed
out have the requested type and the others keep theirs. -/
structure Region.CutInto (region : Region) (memoryType : MemoryType) (pageCount : UInt64)
    (placed : (Status × UInt64) × List Region) : Prop where
  tiles : Span.Tiles region.bottom region.top (placed.2.map Region.span)
  inside : ∀ byte, Granted placed.1 pageCount byte → region.span.Contains byte
  labels : ∀ byte, region.span.Contains byte →
    Span.labelAt (placed.2.map Region.span) byte =
      if Granted placed.1 pageCount byte then some memoryType.toUInt32
      else some region.type

namespace Region

variable {memoryType : MemoryType} {pageCount : UInt64}

theorem cutInto_whole {region piece : Region}
    (identical : region.numberOfPages.toNat = pageCount.toNat)
    (spans : piece.span = (region.withType memoryType).span) :
    region.CutInto memoryType pageCount ((.success, region.physicalStart), [piece]) := by
  constructor
  · simp only [List.map_cons, List.map_nil, spans]
    exact ⟨rfl, rfl⟩
  · intro byte granted
    have range := granted.2
    rw [← identical] at range
    exact range
  · intro byte contains
    have granted : Granted (.success, region.physicalStart) pageCount byte := by
      refine ⟨rfl, ?_⟩
      rw [← identical]
      exact contains
    have whole : (region.withType memoryType).span.Contains byte := contains
    simp [Span.labelAt, spans, granted, whole]

theorem cutInto_unchanged (region : Region) (memoryType : MemoryType) (pageCount : UInt64) :
    region.CutInto memoryType pageCount ((.outOfResources, 0), [region]) := by
  constructor
  · exact ⟨rfl, rfl⟩
  · intro byte granted
    cases granted.1
  · intro byte contains
    simp [Span.labelAt, Granted, contains]

theorem placeAtStart_cutInto {region : Region} (below : region.top < 2 ^ 64)
    (fewer : pageCount.toNat ≤ region.numberOfPages.toNat)
    (memoryType : MemoryType) (room : Nat) :
    region.CutInto memoryType pageCount (region.placeAtStart memoryType pageCount room) := by
  cases room with
  | zero => exact cutInto_unchanged region memoryType pageCount
  | succ room =>
    have rest := bottom_dropPages below fewer
    have restTop := top_dropPages below fewer
    have inTop : region.bottom + 4096 * pageCount.toNat ≤ region.top := by
      unfold top
      omega
    constructor
    · exact ⟨rfl, rest, restTop⟩
    · intro byte granted
      have range := granted.2
      simp only [Span.Contains, span_lower, span_upper]
      change region.bottom ≤ byte ∧ byte < region.bottom + 4096 * pageCount.toNat at range
      omega
    · intro byte contains
      simp only [Span.Contains, span_lower, span_upper] at contains
      simp only [placeAtStart, List.map_cons, List.map_nil, Span.labelAt, Span.Contains,
        span_lower, span_upper, span_label, bottom_assign, top_assign, type_assign,
        bottom_firstPages, top_firstPages, type_dropPages, rest, restTop, Granted,
        true_and]
      change (if region.bottom ≤ byte ∧ _ then _ else _) =
        if region.bottom ≤ byte ∧ byte < region.bottom + 4096 * pageCount.toNat then _ else _
      split_ifs with inFirst inRest
      · rfl
      · rfl
      · omega

theorem CutInto.behind_firstPages {region : Region}
    {pages : UInt64} {result : Status × UInt64} {pieces : List Region}
    (below : region.top < 2 ^ 64)
    (fewer : pages.toNat ≤ region.numberOfPages.toNat)
    (cut : (region.dropPages pages).CutInto memoryType pageCount (result, pieces)) :
    region.CutInto memoryType pageCount (result, region.firstPages pages :: pieces) := by
  have restBottom := bottom_dropPages below fewer
  have restTop := top_dropPages below fewer
  have tiles := cut.tiles
  rw [restBottom, restTop] at tiles
  constructor
  · exact ⟨rfl, tiles⟩
  · intro byte granted
    have inRest := cut.inside byte granted
    simp only [Span.Contains, span_lower, span_upper] at inRest ⊢
    omega
  · intro byte contains
    rw [List.map_cons, Span.labelAt]
    by_cases inFirst : (region.firstPages pages).span.Contains byte
    · have notGranted : ¬ Granted result pageCount byte := by
        intro granted
        have inRest := cut.inside byte granted
        simp only [Span.Contains, span_lower, span_upper, top_firstPages] at inFirst inRest
        omega
      rw [if_pos inFirst, if_neg notGranted]
      rfl
    · have inRest : (region.dropPages pages).span.Contains byte := by
        simp only [Span.Contains, span_lower, span_upper, bottom_firstPages,
          top_firstPages] at contains inFirst ⊢
        omega
      rw [if_neg inFirst]
      exact cut.labels byte inRest

theorem placeInside_cutInto {region : Region} {address : UInt64} (below : region.top < 2 ^ 64)
    (fits : region.Fits .allocateAddress pageCount address)
    (memoryType : MemoryType) (room : Nat) :
    region.CutInto memoryType pageCount (region.placeInside memoryType pageCount address room) := by
  cases room with
  | zero => exact cutInto_unchanged region memoryType pageCount
  | succ room =>
    have fewer := fits.pages_before
    rw [placeInside_succ]
    generalize (address - region.physicalStart) / pageSize = pages at fewer ⊢
    have fewerLow : pages.toNat ≤ region.numberOfPages.toNat := by omega
    have highPages := numberOfPages_dropPages fewerLow
    have highBelow : (region.dropPages pages).top < 2 ^ 64 := by
      rw [top_dropPages below fewerLow]
      exact below
    have fewerHigh : pageCount.toNat ≤ (region.dropPages pages).numberOfPages.toNat := by
      omega
    by_cases bigger : (region.dropPages pages).numberOfPages > pageCount
    · rw [if_pos bigger]
      -- The part behind the first cut is served from its start.
      have cut := placeAtStart_cutInto highBelow fewerHigh memoryType room
      exact cut.behind_firstPages below fewerLow
    · have exactPages : (region.dropPages pages).numberOfPages.toNat = pageCount.toNat :=
        Nat.le_antisymm (UInt64.le_iff_toNat_le.mp (UInt64.not_lt.mp bigger)) fewerHigh
      rw [if_neg bigger]
      apply CutInto.behind_firstPages below fewerLow
      exact cutInto_whole exactPages rfl

theorem place_cutInto {region : Region} {allocateType : AllocateType}
    {address : UInt64} (below : region.top < 2 ^ 64)
    (fits : region.Fits allocateType pageCount address)
    (memoryType : MemoryType) (room : Nat) :
    region.CutInto memoryType pageCount
      (region.place allocateType memoryType pageCount address room) := by
  rcases region.place_cases allocateType memoryType pageCount address room with
    ⟨identical, placed⟩ | ⟨_, _, placed⟩ | ⟨_, isAddress, _, placed⟩
  · rw [placed]
    exact cutInto_whole (congrArg UInt64.toNat identical) rfl
  · rw [placed]
    exact placeAtStart_cutInto below fits.pages memoryType room
  · rw [placed]
    exact placeInside_cutInto below (isAddress ▸ fits) memoryType room

end Region

end HypervisorFirmware.Alloc
