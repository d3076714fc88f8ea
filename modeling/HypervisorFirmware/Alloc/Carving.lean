import HypervisorFirmware.Alloc.ByteTypes

/-! # Carving page-aligned ranges

What `allocate_pages` does for an `AllocateAddress` request whose address and
whose region are page-aligned: the region that contains the range is cut at
exactly its two ends. -/

namespace HypervisorFirmware.Alloc

open Efi

namespace Region

structure Serves (region : Region) (lower upper : Nat) : Prop where
  conventional : region.type = MemoryType.conventionalMemory.toUInt32
  lower : region.bottom ≤ lower
  upper : upper ≤ region.top

variable {address pageCount : UInt64}

theorem canServe_iff_serves {region : Region} (below : region.top < 2 ^ 64)
    (bounded : address.toNat + 4096 * pageCount.toNat < 2 ^ 64) :
    region.canServe .allocateAddress pageCount address = true ↔
      region.Serves address.toNat (address.toNat + 4096 * pageCount.toNat) := by
  constructor
  · intro serves
    have fits := fits_of_canServe below (fun _ => bounded) serves
    exact ⟨conventional_of_canServe serves, fits.lower rfl, fits.upper rfl⟩
  · intro serves
    have requestEnd : (address + pageSize * pageCount).toNat =
        address.toNat + 4096 * pageCount.toNat := by
      rw [UInt64.toNat_add, UInt64.toNat_mul, pageSize_toNat]
      omega
    have lower : address ≥ region.physicalStart := UInt64.le_iff_toNat_le.mpr serves.lower
    have upper : address + pageSize * pageCount ≤
        region.physicalStart + pageSize * region.numberOfPages := by
      rw [UInt64.le_iff_toNat_le, requestEnd, end_toNat below]
      exact serves.upper
    simp [canServe, isConventional, serves.conventional, lower, upper]

/-- The pieces are the range itself with its new type and, where the region
extends beyond it, one piece of the old type on either side. -/
def CarvedInto (region : Region) (memoryType : MemoryType) (lower upper : Nat)
    (pieces : List Region) : Prop :=
  ∃ lows taken highs, pieces = lows ++ taken :: highs ∧
    (taken.bottom = lower ∧ taken.top = upper ∧ taken.type = memoryType.toUInt32) ∧
    (lows = [] ∧ region.bottom = lower ∨
      ∃ low, lows = [low] ∧ low.bottom = region.bottom ∧ low.top = lower ∧
        low.type = region.type) ∧
    (highs = [] ∧ region.top = upper ∨
      ∃ high, highs = [high] ∧ high.bottom = upper ∧ high.top = region.top ∧
        high.type = region.type)

theorem placeAtStart_carvedInto {region : Region} (below : region.top < 2 ^ 64)
    (fewer : pageCount.toNat ≤ region.numberOfPages.toNat) (memoryType : MemoryType)
    {room : Nat} (enough : 2 ≤ room) :
    (region.placeAtStart memoryType pageCount room).1 = (.success, region.physicalStart) ∧
      region.CarvedInto memoryType region.bottom (region.bottom + 4096 * pageCount.toNat)
        (region.placeAtStart memoryType pageCount room).2 := by
  obtain ⟨room, rfl⟩ : ∃ less, room = less + 1 := ⟨room - 1, by omega⟩
  refine ⟨rfl, [], _, _, rfl, ⟨rfl, rfl, rfl⟩, .inl ⟨rfl, rfl⟩, .inr ⟨_, rfl, ?_, ?_, rfl⟩⟩
  · exact bottom_dropPages below fewer
  · exact top_dropPages below fewer

section

variable {region : Region} (below : region.top < 2 ^ 64)
  (fits : region.Fits .allocateAddress pageCount address)
  (aligned : 4096 ∣ address.toNat - region.bottom) (memoryType : MemoryType) {room : Nat}
  (enough : 2 ≤ room)

include below fits aligned enough

theorem placeInside_carvedInto :
    (region.placeInside memoryType pageCount address room).1 = (.success, address) ∧
      region.CarvedInto memoryType address.toNat (address.toNat + 4096 * pageCount.toNat)
        (region.placeInside memoryType pageCount address room).2 := by
  obtain ⟨room, rfl⟩ : ∃ less, room = less + 2 := ⟨room - 2, by omega⟩
  have lower := fits.lower rfl
  have fewer := fits.pages_before
  have offset : (address - region.physicalStart).toNat = address.toNat - region.bottom :=
    UInt64.toNat_sub_of_le _ _ (UInt64.le_iff_toNat_le.mpr lower)
  have boundary : 4096 * ((address - region.physicalStart) / pageSize).toNat =
      address.toNat - region.bottom := by
    rw [UInt64.toNat_div, offset, pageSize_toNat]
    omega
  unfold placeInside
  simp only
  generalize (address - region.physicalStart) / pageSize = pages at fewer boundary ⊢
  have fewerLow : pages.toNat ≤ region.numberOfPages.toNat := by omega
  have highPages := numberOfPages_dropPages fewerLow
  have highBottom := bottom_dropPages below fewerLow
  have highTop := top_dropPages below fewerLow
  have highStart : (region.dropPages pages).physicalStart = address := by
    apply UInt64.toNat_inj.mp
    change (region.dropPages pages).bottom = address.toNat
    omega
  have fewerHigh : pageCount.toNat ≤ (region.dropPages pages).numberOfPages.toNat := by
    omega
  have highBelow : (region.dropPages pages).top < 2 ^ 64 := by omega
  have lastBottom := bottom_dropPages highBelow fewerHigh
  have lastTop := top_dropPages highBelow fewerHigh
  have low : (region.firstPages pages).bottom = region.bottom ∧
      (region.firstPages pages).top = address.toNat := by
    rw [bottom_firstPages, top_firstPages]
    omega
  by_cases bigger : (region.dropPages pages).numberOfPages > pageCount
  · simp only [bigger, if_true, highStart, true_and]
    refine ⟨[_], _, [_], rfl, ⟨?_, ?_, rfl⟩, .inr ⟨_, rfl, low.1, low.2, rfl⟩,
      .inr ⟨_, rfl, ?_, ?_, rfl⟩⟩
    · rw [bottom_assign, bottom_firstPages]
      omega
    · rw [top_assign, top_firstPages]
      omega
    · omega
    · omega
  · have notBigger := UInt64.le_iff_toNat_le.mp (UInt64.not_lt.mp bigger)
    have highEnd : (region.dropPages pages).top = address.toNat + 4096 * pageCount.toNat := by
      rw [top]
      omega
    simp only [bigger, if_false, highStart, true_and]
    refine ⟨[_], _, [], rfl, ⟨?_, ?_, rfl⟩, .inr ⟨_, rfl, low.1, low.2, rfl⟩, .inl ⟨rfl, ?_⟩⟩
    · rw [bottom_assign]
      omega
    · rw [top_assign]
      omega
    · omega

theorem place_carvedInto :
    (region.place .allocateAddress memoryType pageCount address room).1 =
        (.success, address) ∧
      region.CarvedInto memoryType address.toNat (address.toNat + 4096 * pageCount.toNat)
        (region.place .allocateAddress memoryType pageCount address room).2 := by
  have lower := fits.lower rfl
  have upper := fits.upper rfl
  have regionTop : region.top = region.bottom + 4096 * region.numberOfPages.toNat := rfl
  rcases region.place_cases .allocateAddress memoryType pageCount address room with
    ⟨identical, placed⟩ | ⟨_, first, placed⟩ | ⟨_, _, _, placed⟩
  · rw [identical] at regionTop
    have sameStart : region.physicalStart = address := by
      apply UInt64.toNat_inj.mp
      change region.bottom = address.toNat
      omega
    have sameBottom : region.bottom = address.toNat := congrArg UInt64.toNat sameStart
    simp only [placed, sameStart, true_and]
    refine ⟨[], _, [], rfl, ⟨sameBottom, ?_, rfl⟩, .inl ⟨rfl, sameBottom⟩, .inl ⟨rfl, ?_⟩⟩
    · rw [top_withType]
      omega
    · omega
  · have atStart := placeAtStart_carvedInto below fits.pages memoryType enough
    have sameBottom : region.bottom = address.toNat := congrArg UInt64.toNat (first rfl)
    rw [placed, ← sameBottom, ← first rfl]
    exact atStart
  · rw [placed]
    exact placeInside_carvedInto below fits aligned memoryType enough

end

/-! ## Consequences of a cut -/

variable {region : Region} {memoryType : MemoryType} {lower upper : Nat}
  {pieces : List Region}

variable (carved : region.CarvedInto memoryType lower upper pieces)

include carved

theorem CarvedInto.serves {first last : Nat} (notEmpty : first < last)
    (served : region.Serves first last) (apart : last ≤ lower ∨ upper ≤ first) :
    ∃ piece ∈ pieces, piece.Serves first last := by
  rcases carved with ⟨lows, taken, highs, rfl, _, lowCases, highCases⟩
  have inside := served.lower
  have inside' := served.upper
  rcases apart with before | behind
  · rcases lowCases with ⟨_, bottom⟩ | ⟨low, rfl, bottom, top, type⟩
    · omega
    · exact ⟨low, by simp, type.trans served.conventional, by omega, by omega⟩
  · rcases highCases with ⟨_, top⟩ | ⟨high, rfl, bottom, top, type⟩
    · omega
    · exact ⟨high, by simp, type.trans served.conventional, by omega, by omega⟩

theorem CarvedInto.not_across (ordered : lower ≤ upper) {piece : Region} (member : piece ∈ pieces) :
    ¬(piece.bottom < lower ∧ lower < piece.top) := by
  rcases carved with ⟨lows, taken, highs, rfl, ⟨takenBottom, _, _⟩, lowCases, highCases⟩
  intro across
  rcases List.mem_append.mp member with isLow | rest
  · rcases lowCases with ⟨rfl, _⟩ | ⟨low, rfl, _, top, _⟩
    · cases isLow
    · rw [List.mem_singleton.mp isLow] at across
      omega
  · rcases List.mem_cons.mp rest with isTaken | isHigh
    · rw [isTaken] at across
      omega
    · rcases highCases with ⟨rfl, _⟩ | ⟨high, rfl, bottom, _, _⟩
      · cases isHigh
      · rw [List.mem_singleton.mp isHigh] at across
        omega

theorem CarvedInto.aligned (regionAligned : 4096 ∣ region.bottom) (lowerAligned : 4096 ∣ lower)
    (upperAligned : 4096 ∣ upper) {piece : Region} (member : piece ∈ pieces) :
    4096 ∣ piece.bottom := by
  rcases carved with ⟨lows, taken, highs, rfl, ⟨takenBottom, _, _⟩, lowCases, highCases⟩
  rcases List.mem_append.mp member with isLow | rest
  · rcases lowCases with ⟨rfl, _⟩ | ⟨low, rfl, bottom, _, _⟩
    · cases isLow
    · rw [List.mem_singleton.mp isLow, bottom]
      exact regionAligned
  · rcases List.mem_cons.mp rest with isTaken | isHigh
    · rw [isTaken, takenBottom]
      exact lowerAligned
    · rcases highCases with ⟨rfl, _⟩ | ⟨high, rfl, bottom, _, _⟩
      · cases isHigh
      · rw [List.mem_singleton.mp isHigh, bottom]
        exact upperAligned

theorem CarvedInto.length_le : pieces.length ≤ 3 := by
  rcases carved with ⟨lows, taken, highs, rfl, _, lowCases, highCases⟩
  rcases lowCases with ⟨rfl, _⟩ | ⟨low, rfl, _⟩ <;>
    rcases highCases with ⟨rfl, _⟩ | ⟨high, rfl, _⟩ <;> simp

end Region

end HypervisorFirmware.Alloc
