import HypervisorFirmware.Alloc.AllocationEffect
import HypervisorFirmware.Alloc.FailedAllocation

/-! # Allocating at an address

An `AllocateAddress` request is turned into a number of pages from the start of the
region that contains it, and the address that is returned is computed back from that
number. What is left over in the division is lost. -/

namespace HypervisorFirmware.Alloc

open Efi

variable {address pageCount : UInt64}

section

variable {region : Region} (below : region.top < 2 ^ 64)
  (fits : region.Fits .allocateAddress pageCount address) (memoryType : MemoryType) {room : Nat}
  (success : (region.place .allocateAddress memoryType pageCount address room).1.1 = .success)

include below fits success

theorem Region.place_rounded :
    (region.place .allocateAddress memoryType pageCount address room).1.2.toNat =
      region.bottom + 4096 * ((address.toNat - region.bottom) / 4096) := by
  have lower := fits.lower rfl
  have upper := fits.upper rfl
  have regionTop : region.top = region.bottom + 4096 * region.numberOfPages.toNat := rfl
  rcases region.place_cases .allocateAddress memoryType pageCount address room with
    ⟨identical, placed⟩ | ⟨_, first, placed⟩ | ⟨_, _, _, placed⟩
  · -- A range as long as the region can only start where the region starts.
    rw [identical] at regionTop
    have sameBottom : address.toNat = region.bottom := by omega
    rw [placed, sameBottom, Nat.sub_self]
    rfl
  · have sameBottom : region.bottom = address.toNat := congrArg UInt64.toNat (first rfl)
    rw [placed, placeAtStart_status] at success ⊢
    split_ifs at success ⊢
    rw [sameBottom, Nat.sub_self, first rfl]
    rfl
  · rw [placed, placeInside_status] at success ⊢
    have offset : (address - region.physicalStart).toNat = address.toNat - region.bottom :=
      UInt64.toNat_sub_of_le _ _ (UInt64.le_iff_toNat_le.mpr lower)
    have pages : ((address - region.physicalStart) / pageSize).toNat =
        (address.toNat - region.bottom) / 4096 := by
      rw [UInt64.toNat_div, offset, pageSize_toNat]
    have fewer := fits.pages_before
    have start := bottom_dropPages below (Nat.le_trans (Nat.le_add_right _ pageCount.toNat) fewer)
    rw [pages] at start
    split_ifs at success ⊢ <;> exact start

theorem Region.place_exact_iff :
    (region.place .allocateAddress memoryType pageCount address room).1.2 = address ↔
      4096 ∣ address.toNat - region.bottom := by
  have lower := fits.lower rfl
  have rounded := place_rounded below fits memoryType success
  rw [← UInt64.toNat_inj, rounded]
  omega

end

/-- The call returns the requested address with the bytes from there on in the requested
type, or it fails. -/
def AllocatesExactly (allocator : Allocator) (memoryType : MemoryType)
    (pageCount address : UInt64) : Prop :=
  ∃ status assigned next,
    allocator.allocatePages .allocateAddress memoryType pageCount address =
      .ok ((status, assigned), next) ∧
    (status = .success ∧ assigned = address ∧ (next.Reports fun regions' =>
        ∀ byte, address.toNat ≤ byte → byte < address.toNat + 4096 * pageCount.toNat →
          typeAt regions' byte = some memoryType.toUInt32) ∨
      status = .outOfResources)

/-- The first region that contains the range starts at a whole number of pages before
it, unless there are too few slots to serve the request at all. -/
def OnPageOfRegion (pageCount address : UInt64) (regions : List Region) : Prop :=
  ∀ region,
    regions.find? (Region.canServe .allocateAddress pageCount address) = some region →
      4096 ∣ address.toNat - region.bottom ∨
        maxAllocations - regions.length < region.cuts .allocateAddress pageCount address

theorem allocatesExactly_iff_map {allocator : Allocator} {map : MemoryMap}
    (represents : allocator.Represents map) (laid : Laid map.regions)
    (bounded : Bounded .allocateAddress pageCount address)
    (memoryType : MemoryType) :
    AllocatesExactly allocator memoryType pageCount address ↔
      OnPageOfRegion pageCount address map.regions := by
  rcases Allocator.allocatePages_represents represents .allocateAddress memoryType pageCount
      address with ⟨next, returned, kept⟩
  have types := (laid.allocate bounded memoryType).types
  have reduced : AllocatesExactly allocator memoryType pageCount address ↔
      (map.allocate .allocateAddress memoryType pageCount address).1.1 = .success ∧
          (map.allocate .allocateAddress memoryType pageCount address).1.2 = address ∨
        (map.allocate .allocateAddress memoryType pageCount address).1.1 =
          .outOfResources := by
    constructor
    · rintro ⟨status, assigned, next', returned', outcome⟩
      simp only [returned, Except.ok.injEq, Prod.mk.injEq] at returned'
      rw [returned'.1]
      rcases outcome with ⟨success, exactly, _⟩ | failed
      · exact .inl ⟨success, exactly⟩
      · exact .inr failed
    · intro outcome
      refine ⟨_, _, next, returned, ?_⟩
      rcases outcome with ⟨success, exactly⟩ | failed
      · refine .inl ⟨success, exactly, ?_⟩
        rw [kept.reports_iff]
        intro byte lower upper
        rw [types byte, if_pos]
        refine ⟨success, ?_⟩
        rw [exactly]
        exact ⟨lower, upper⟩
      · exact .inr failed
  rw [reduced, OnPageOfRegion]
  rcases map.allocate_cases .allocateAddress memoryType pageCount address with
    ⟨missing, unchanged⟩ | ⟨before, region, after, regionsEqual, found, serves, outcome⟩
  · simp [missing, unchanged]
  · have below := laid.below region (by simp [regionsEqual])
    have fits := Region.fits_of_canServe below bounded serves
    have slots := region.place_success_iff .allocateAddress memoryType pageCount address map.room
    have room : map.room = maxAllocations - map.regions.length := rfl
    rw [outcome, found]
    simp only [Option.some.injEq, forall_eq', ← room]
    rcases region.place_status .allocateAddress memoryType pageCount address map.room with
      success | failed
    · have onPage := Region.place_exact_iff below fits memoryType success
      have enough := slots.mp success
      have notShort : ¬map.room < region.cuts .allocateAddress pageCount address :=
        Nat.not_lt.mpr enough
      simp [success, onPage, notShort]
    · have short : map.room < region.cuts .allocateAddress pageCount address := by
        rw [← Nat.not_le, ← slots, failed]
        decide
      simp [failed, short]

/-- In every state reached without a request that wraps around into a descriptor, an
`AllocateAddress` request is exact if and only if it lies on a page of the region that
contains it. -/
theorem allocatesExactly_iff_on_page (initial : List InitialRegion)
    (inOrder : InitialRegion.InOrder initial) (operations : List Operation)
    (calls : ∀ operation ∈ operations, ServiceCall operation)
    (unserved : NoServedWrap (history initial operations)) :
    ∃ responses allocator,
      run Allocator.new (history initial operations) = .ok (responses, allocator) ∧
      ∀ memoryType pageCount address, address.toNat + 4096 * pageCount.toNat < 2 ^ 64 →
        (AllocatesExactly allocator memoryType pageCount address ↔
          allocator.Reports (OnPageOfRegion pageCount address)) := by
  rcases run_represents Allocator.new_represents (history initial operations) with
    ⟨allocator, ran, represents⟩
  refine ⟨_, allocator, ran, ?_⟩
  intro memoryType pageCount address bounded
  rw [represents.reports_iff]
  exact allocatesExactly_iff_map represents (unserved.laid inOrder calls) (fun _ => bounded)
    memoryType

theorem allocatesExactly_iff_on_page_one_region :
    ∃ responses allocator,
      run Allocator.new (history sixteenPages []) = .ok (responses, allocator) ∧
      ∀ memoryType pageCount address, address.toNat + 4096 * pageCount.toNat < 2 ^ 64 →
        (AllocatesExactly allocator memoryType pageCount address ↔
          allocator.Reports (OnPageOfRegion pageCount address)) := by
  apply allocatesExactly_iff_on_page
  · exact sixteenPages_inOrder
  · simp
  · apply noServedWrap_of_bounded
    simp [history, sixteenPages, InitialRegion.operation]

/-- A request in the middle of a page gets the start of that page. -/
theorem not_allocatesExactly_middle_of_page :
    ∃ responses allocator,
      run Allocator.new (history sixteenPages []) = .ok (responses, allocator) ∧
      ¬AllocatesExactly allocator .loaderData 1 0x204800 := by
  rcases run_represents Allocator.new_represents (history sixteenPages []) with
    ⟨allocator, ran, represents⟩
  refine ⟨_, allocator, ran, ?_⟩
  rintro ⟨status, assigned, next, returned, outcome⟩
  rcases Allocator.allocatePages_represents represents .allocateAddress .loaderData 1 0x204800
    with ⟨next', returned', _⟩
  rw [returned] at returned'
  cases returned'
  rcases outcome with ⟨_, exactly, _⟩ | failed
  · exact absurd exactly (by decide)
  · exact absurd failed (by decide)

end HypervisorFirmware.Alloc
