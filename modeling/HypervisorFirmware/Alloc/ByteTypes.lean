import HypervisorFirmware.Alloc.Layout

/-! # The type of every byte

A memory map whose regions are laid out in ascending order gives each byte at
most one type. Allocation and release are changes of this function on one
range; cutting, joining and failing calls do not change it. -/

namespace HypervisorFirmware.Alloc

open Efi

def typeAt (regions : List Region) (byte : Nat) : Option UInt32 :=
  Span.labelAt (regions.map Region.span) byte

structure LaidBelow (bound : Nat) (regions : List Region) : Prop where
  ascending : Span.Ascending (regions.map Region.span)
  below : ∀ region ∈ regions, region.top < bound

abbrev Laid (regions : List Region) : Prop := LaidBelow (2 ^ 64) regions

theorem MemoryMap.exists_start_of_mem_mergeFrom {current region : Region}
    {rest : List Region} (member : region ∈ MemoryMap.mergeFrom current rest) :
    ∃ old ∈ current :: rest, region.physicalStart = old.physicalStart := by
  induction rest generalizing current with
  | nil => exact ⟨region, member, rfl⟩
  | cons next rest induction =>
    rw [mergeFrom] at member
    split_ifs at member
    · rcases induction member with ⟨old, oldMember, sameStart⟩
      rcases List.mem_cons.mp oldMember with equal | later
      · subst equal
        exact ⟨current, by simp, sameStart⟩
      · exact ⟨old, by simp [later], sameStart⟩
    · rcases List.mem_cons.mp member with equal | later
      · exact ⟨current, by simp, by rw [equal]⟩
      · rcases induction later with ⟨old, oldMember, sameStart⟩
        exact ⟨old, List.mem_cons_of_mem _ oldMember, sameStart⟩

namespace Laid

variable {before : List Region}

theorem ordered {after : List Region} {region : Region} (laid : Laid (before ++ region :: after)) :
    Span.Ascending (before.map Region.span ++ region.span :: after.map Region.span) := by
  simpa using laid.ascending

theorem typeAt_of_mem {regions : List Region} (laid : Laid regions) {region : Region}
    (member : region ∈ regions) {byte : Nat} (inside : region.span.Contains byte) :
    typeAt regions byte = some region.type :=
  Span.labelAt_eq_some_of_mem laid.ascending (List.mem_map_of_mem member) inside

variable {pieces after : List Region} {region : Region} (laid : Laid (before ++ region :: after))
  (tiles : Span.Tiles region.bottom region.top (pieces.map Region.span))

include laid tiles

theorem replace : Laid (before ++ pieces ++ after) := by
  constructor
  · simpa using laid.ordered.replace tiles
  · refine forall_mem_replaced laid.below fun piece here => ?_
    have bound := (tiles.bounds (List.mem_map_of_mem here)).2
    have whole := laid.below region (by simp)
    rw [Region.span_upper] at bound
    omega

theorem typeAt_replace (byte : Nat) :
    typeAt (before ++ pieces ++ after) byte =
      if region.span.Contains byte then typeAt pieces byte
      else typeAt (before ++ region :: after) byte := by
  have replaced := Span.labelAt_replace laid.ordered tiles byte
  simpa [typeAt] using replaced

end Laid

/-! ## Joining -/

namespace LaidBelow

variable {bound : Nat} {current next : Region} {rest : List Region}

theorem tail (laid : LaidBelow bound (current :: rest)) : LaidBelow bound rest :=
  ⟨(List.pairwise_cons.mp laid.ascending).2,
    fun later member => laid.below later (List.mem_cons_of_mem _ member)⟩

theorem top_lt (laid : LaidBelow bound (current :: next :: rest)) : current.top < 2 ^ 64 := by
  have separated := (List.pairwise_cons.mp laid.ascending).1 next.span (by simp)
  exact Nat.lt_of_le_of_lt separated next.physicalStart.toNat_lt

section

variable (laid : LaidBelow bound (current :: next :: rest)) (bounded : bound ≤ 2 ^ 64 + 1)
  (absorbs : current.absorbs next = true)

include laid bounded absorbs

theorem join_top :
    next.bottom = current.top ∧ (current.join next).top = next.top ∧
      current.type = MemoryType.conventionalMemory.toUInt32 ∧
      next.type = MemoryType.conventionalMemory.toUInt32 := by
  have nextBelow := laid.below next (by simp)
  unfold Region.absorbs Region.isConventional at absorbs
  simp only [Bool.and_eq_true, beq_iff_eq] at absorbs
  rcases absorbs with ⟨⟨currentType, nextType⟩, contiguous⟩
  have adjacent : next.bottom = current.top := by
    rw [Region.bottom, contiguous, UInt64.mul_comm, Region.end_toNat laid.top_lt]
  refine ⟨adjacent, ?_, currentType, nextType⟩
  have pages : (current.join next).numberOfPages.toNat =
      current.numberOfPages.toNat + next.numberOfPages.toNat := by
    unfold Region.top at nextBelow adjacent
    simp only [Region.join, UInt64.toNat_add]
    omega
  have sameBottom : (current.join next).bottom = current.bottom := rfl
  unfold Region.top at adjacent ⊢
  rw [pages, sameBottom]
  omega

theorem join :
    LaidBelow bound (current.join next :: rest) ∧ ∀ byte,
      typeAt (current.join next :: rest) byte = typeAt (current :: next :: rest) byte := by
  rcases laid.join_top bounded absorbs with ⟨adjacent, joinedTop, currentType, nextType⟩
  have joined : LaidBelow bound (current.join next :: rest) := by
    constructor
    · apply List.Pairwise.cons
      · intro later member
        have parts := List.pairwise_cons.mp laid.tail.ascending
        have separated := parts.1 later member
        rw [Region.span_upper] at separated ⊢
        rw [joinedTop]
        exact separated
      · exact laid.tail.tail.ascending
    · intro region member
      rcases List.mem_cons.mp member with equal | later
      · subst equal
        rw [joinedTop]
        exact laid.below next (by simp)
      · exact laid.below region (by simp [later])
  refine ⟨joined, ?_⟩
  intro byte
  have tiles : Span.Tiles (current.join next).bottom (current.join next).top
      ([current, next].map Region.span) :=
    ⟨rfl, adjacent, joinedTop.symm⟩
  have ordered : Span.Ascending ([] ++ (current.join next).span :: rest.map Region.span) :=
    joined.ascending
  have replaced := Span.labelAt_replace ordered tiles byte
  have same : typeAt (current :: next :: rest) byte =
      if (current.join next).span.Contains byte then typeAt [current, next] byte
      else typeAt (current.join next :: rest) byte := by
    simpa [typeAt] using replaced
  rw [same]
  split_ifs with inside
  · have sameType : (current.join next).type = current.type := rfl
    have covered := (tiles.covers_iff byte).mpr inside
    have whole : typeAt (current.join next :: rest) byte = some (current.join next).type :=
      Span.labelAt_eq_some_of_mem joined.ascending (List.mem_map_of_mem List.mem_cons_self) inside
    rw [whole, sameType]
    unfold typeAt
    cases label : Span.labelAt ([current, next].map Region.span) byte with
    | none => exact absurd covered ((Span.labelAt_eq_none_iff _ _).mp label)
    | some found =>
      rcases Span.exists_of_labelAt_eq_some label with ⟨span, member, _, labelled⟩
      have either : span = current.span ∨ span = next.span := by simpa using member
      rcases either with equal | equal
      · rw [← labelled, equal, Region.span_label]
      · rw [← labelled, equal, Region.span_label, currentType, nextType]
  · rfl

end

theorem mergeFrom (laid : LaidBelow bound (current :: rest)) (bounded : bound ≤ 2 ^ 64 + 1) :
    LaidBelow bound (MemoryMap.mergeFrom current rest) ∧ ∀ byte,
      typeAt (MemoryMap.mergeFrom current rest) byte = typeAt (current :: rest) byte := by
  induction rest generalizing current with
  | nil => exact ⟨laid, fun _ => rfl⟩
  | cons next rest induction =>
    rw [MemoryMap.mergeFrom]
    split_ifs with absorbs
    · rcases laid.join bounded absorbs with ⟨joined, sameTypes⟩
      rcases induction joined with ⟨merged, mergedTypes⟩
      exact ⟨merged, fun byte => (mergedTypes byte).trans (sameTypes byte)⟩
    · rcases induction laid.tail with ⟨merged, mergedTypes⟩
      constructor
      · constructor
        · apply List.Pairwise.cons
          · intro span member
            -- A merged region starts where an old one starts, so after `current`.
            rcases List.mem_map.mp member with ⟨region, regionMember, equal⟩
            rcases MemoryMap.exists_start_of_mem_mergeFrom regionMember with
              ⟨old, oldMember, sameStart⟩
            have separated := (List.pairwise_cons.mp laid.ascending).1 old.span
              (List.mem_map_of_mem oldMember)
            rw [← equal, Region.span_lower, Region.bottom, sameStart]
            exact separated
          · exact merged.ascending
        · intro region member
          rcases List.mem_cons.mp member with equal | later
          · subst equal
            exact laid.below region List.mem_cons_self
          · exact merged.below region later
      · intro byte
        have laterTypes := mergedTypes byte
        simp only [typeAt, List.map_cons, Span.labelAt] at laterTypes ⊢
        rw [laterTypes]

theorem merge {regions : List Region} (laid : LaidBelow bound regions)
    (bounded : bound ≤ 2 ^ 64 + 1) :
    LaidBelow bound (MemoryMap.merge regions) ∧ ∀ byte,
      typeAt (MemoryMap.merge regions) byte = typeAt regions byte := by
  cases regions with
  | nil => exact ⟨laid, fun _ => rfl⟩
  | cons first rest => exact laid.mergeFrom bounded

end LaidBelow

/-- What an allocation does to the types: the bytes granted were conventional and get the
type asked for. -/
structure GrantsType (regions : List Region) (pageCount : UInt64) (memoryType : MemoryType)
    (outcome : (Status × UInt64) × MemoryMap) : Prop where
  laid : Laid outcome.2.regions
  wereFree : ∀ byte, Granted outcome.1 pageCount byte →
    typeAt regions byte = some MemoryType.conventionalMemory.toUInt32
  types : ∀ byte, typeAt outcome.2.regions byte =
    if Granted outcome.1 pageCount byte then some memoryType.toUInt32 else typeAt regions byte

namespace Laid

variable {current : Region} {rest : List Region} {allocateType : AllocateType} {map : MemoryMap}
   {pageCount : UInt64}

/-! ## The operations -/

theorem allocate_of_fits (laid : Laid map.regions) {address : UInt64} (fits : ∀ region,
      map.regions.find? (Region.canServe allocateType pageCount address) = some region →
        region.Fits allocateType pageCount address) (memoryType : MemoryType) :
    GrantsType map.regions pageCount memoryType
      (map.allocate allocateType memoryType pageCount address) := by
  rcases map.allocate_cases allocateType memoryType pageCount address with
    ⟨_, unchanged⟩ | ⟨before, region, after, regionsEqual, found, serves, outcomeEqual⟩
  · rw [unchanged]
    refine ⟨laid, ?_, ?_⟩
    · intro byte granted
      cases granted.1
    · intro byte
      simp [Granted]
  · have laid' : Laid (before ++ region :: after) := regionsEqual ▸ laid
    have below := laid'.below region (by simp)
    have cut := Region.place_cutInto below (fits region found) memoryType map.room
    rw [outcomeEqual, regionsEqual]
    refine ⟨laid'.replace cut.tiles, ?_, ?_⟩
    · intro byte granted
      rw [laid'.typeAt_of_mem (by simp) (cut.inside byte granted),
        Region.conventional_of_canServe serves]
    · intro byte
      have replaced := laid'.typeAt_replace cut.tiles byte
      rw [replaced]
      by_cases contains : region.span.Contains byte
      · rw [if_pos contains, laid'.typeAt_of_mem (by simp) contains]
        exact cut.labels byte contains
      · have notGranted : ¬Granted
            (region.place allocateType memoryType pageCount address map.room).1
            pageCount byte :=
          fun granted => contains (cut.inside byte granted)
        rw [if_neg contains, if_neg notGranted]

theorem fits (laid : Laid map.regions) {address : UInt64} {region : Region}
    (bounded : Bounded allocateType pageCount address)
    (found : map.regions.find? (Region.canServe allocateType pageCount address) = some region) :
    region.Fits allocateType pageCount address :=
  Region.fits_of_canServe (laid.below region (List.mem_of_find?_eq_some found)) bounded
    (List.find?_some found)

theorem allocate (laid : Laid map.regions) {address : UInt64}
    (bounded : Bounded allocateType pageCount address) (memoryType : MemoryType) :
    GrantsType map.regions pageCount memoryType
      (map.allocate allocateType memoryType pageCount address) :=
  laid.allocate_of_fits (fun _ => laid.fits bounded) memoryType

/-- A free keeps the layout and makes exactly the bytes of the first region
with the given start address conventional. -/
theorem free (laid : Laid map.regions) (address : UInt64) :
    Laid (map.free address).2.regions ∧
      ∀ byte, typeAt (map.free address).2.regions byte =
        match map.regions.find? fun region => region.physicalStart == address with
        | none => typeAt map.regions byte
        | some region =>
          if region.span.Contains byte then
            some MemoryType.conventionalMemory.toUInt32
          else
            typeAt map.regions byte := by
  rcases map.free_cases address with
    ⟨missing, unchanged⟩ | ⟨before, region, after, regionsEqual, found, _, _, freed⟩
  · rw [unchanged, missing]
    exact ⟨laid, fun _ => rfl⟩
  · have laid' : Laid (before ++ region :: after) := regionsEqual ▸ laid
    have tiles : Span.Tiles region.bottom region.top
        ([region.withType .conventionalMemory].map Region.span) := ⟨rfl, rfl⟩
    rcases (laid'.replace tiles).merge (by decide) with ⟨merged, mergedTypes⟩
    rw [freed, found]
    refine ⟨merged, ?_⟩
    intro byte
    simp only
    rw [mergedTypes byte, laid'.typeAt_replace tiles byte, regionsEqual]
    by_cases contains : region.span.Contains byte
    · have whole : (region.withType .conventionalMemory).span.Contains byte := contains
      simp [contains, whole, typeAt, Span.labelAt]
    · simp [contains]

end Laid

end HypervisorFirmware.Alloc
