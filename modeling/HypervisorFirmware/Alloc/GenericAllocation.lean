import HypervisorFirmware.Alloc.Calloc
import HypervisorFirmware.Alloc.ExactAddress

/-! # Requests that leave the address open

`AllocateAnyPages` requests, which also `allocate_pool` makes, are served from the
start of the first free region that starts above 1 MiB and has the pages. -/

namespace HypervisorFirmware.Alloc

open Efi

/-! ## When there is no memory -/

namespace Region

def HasPagesAbove (region : Region) (pageCount : UInt64) (address : Nat) : Prop :=
  ∃ skipped, address ≤ region.bottom + 4096 * skipped ∧
    skipped + pageCount.toNat ≤ region.numberOfPages.toNat

def ServesGeneric (region : Region) (pageCount : UInt64) : Prop :=
  region.isConventional = true ∧ 0x100000 < region.bottom ∧
    pageCount.toNat ≤ region.numberOfPages.toNat

theorem canServe_anyPages_iff (region : Region) (pageCount address : UInt64) :
    region.canServe .allocateAnyPages pageCount address = true ↔
      region.ServesGeneric pageCount := by
  simp only [canServe, ServesGeneric, Bool.and_eq_true, decide_eq_true_eq, ge_iff_le,
    UInt64.le_iff_toNat_le]
  exact and_congr_right fun _ => and_comm

theorem cuts_anyPages_le (region : Region) (pageCount address : UInt64) :
    region.cuts .allocateAnyPages pageCount address ≤ 1 := by
  unfold cuts
  split_ifs <;> simp

end Region

variable {map : MemoryMap} {allocator : Allocator}

theorem MemoryMap.allocate_anyPages_fails_iff (slot : 1 ≤ map.room)
    (memoryType : MemoryType) (pageCount address : UInt64) :
    (map.allocate .allocateAnyPages memoryType pageCount address).1.1 = .outOfResources ↔
      ∀ region ∈ map.regions, ¬region.ServesGeneric pageCount := by
  rcases map.allocate_cases .allocateAnyPages memoryType pageCount address with
    ⟨missing, unchanged⟩ | ⟨before, region, after, regionsEqual, _, serves, outcome⟩
  · rw [unchanged]
    simp only [true_iff]
    intro region member generic
    exact List.find?_eq_none.mp missing region member
      ((region.canServe_anyPages_iff pageCount address).mpr generic)
  · have success := (region.place_success_iff .allocateAnyPages memoryType pageCount address
      map.room).mpr (Nat.le_trans (region.cuts_anyPages_le pageCount address) slot)
    rw [outcome, success]
    simp only [reduceCtorEq, false_iff]
    intro none
    exact none region (by simp [regionsEqual])
      ((region.canServe_anyPages_iff pageCount address).mp serves)

/-- The call returns, and it runs out of resources only if the descriptors before it
have the property. -/
def RunsOutOnlyIf (allocator : Allocator) (memoryType : MemoryType)
    (pageCount address : UInt64) (Holds : List Region → Prop) : Prop :=
  ∃ status assigned next,
    allocator.allocatePages .allocateAnyPages memoryType pageCount address =
      .ok ((status, assigned), next) ∧
    (status = .outOfResources → allocator.Reports Holds)

/-- With two free slots a generic request runs out of resources only if no free
descriptor that starts above 1 MiB has the pages. -/
theorem runsOut_only_if_none_above {operations : List Operation} {responses : List Response}
    {allocator : Allocator} (ran : run Allocator.new operations = .ok (responses, allocator))
    (slots : allocator.Reports fun regions => regions.length + 2 ≤ maxAllocations)
    (memoryType : MemoryType) (pageCount address : UInt64) :
    RunsOutOnlyIf allocator memoryType pageCount address fun regions =>
      ∀ region ∈ regions, region.isConventional = true → 0x100000 < region.bottom →
        region.numberOfPages < pageCount := by
  have represents := represents_of_run Allocator.new_represents ran
  rw [represents.reports_iff] at slots
  rcases Allocator.allocatePages_represents represents .allocateAnyPages memoryType pageCount
      address with ⟨next, returned, _⟩
  refine ⟨_, _, next, returned, ?_⟩
  intro failed
  rw [represents.reports_iff]
  intro region member conventional above
  have slot : 1 ≤ (MemoryMap.empty.run operations).room := by
    rw [MemoryMap.room]
    omega
  have unserved := (MemoryMap.allocate_anyPages_fails_iff slot memoryType pageCount address).mp
    failed region member
  rw [UInt64.lt_iff_toNat_lt]
  by_contra enough
  exact unserved ⟨conventional, above, Nat.le_of_not_lt enough⟩

theorem runsOut_only_if_none_above_one_region :
    ∃ responses allocator,
      run Allocator.new [.addInitialAllocation .conventionalMemory 0x10 0x200000 memoryWb] =
        .ok (responses, allocator) ∧
      RunsOutOnlyIf allocator .loaderData 0x11 0 fun regions =>
        ∀ region ∈ regions, region.isConventional = true → 0x100000 < region.bottom →
          region.numberOfPages < 0x11 := by
  rcases run_represents Allocator.new_represents
      [.addInitialAllocation .conventionalMemory 0x10 0x200000 memoryWb] with
    ⟨allocator, ran, represents⟩
  refine ⟨_, allocator, ran, runsOut_only_if_none_above ran ?_ .loaderData 0x11 0⟩
  rw [represents.reports_iff]
  decide

/-- Free memory from 0 up to 1 GiB, and no page of it for a generic request. -/
theorem runsOut_below_gigabyte :
    ∃ responses allocator,
      run Allocator.new [.addInitialAllocation .conventionalMemory 0x40000 0 memoryWb] =
        .ok (responses, allocator) ∧
      (allocator.Reports fun regions => regions.length + 2 ≤ maxAllocations) ∧
      ¬RunsOutOnlyIf allocator .loaderData 1 0 fun regions =>
        ∀ region ∈ regions, region.isConventional = true →
          ¬region.HasPagesAbove 1 0x100000 := by
  rcases run_represents Allocator.new_represents
      [.addInitialAllocation .conventionalMemory 0x40000 0 memoryWb] with
    ⟨allocator, ran, represents⟩
  refine ⟨_, allocator, ran, ?_, ?_⟩
  · rw [represents.reports_iff]
    decide
  · rintro ⟨status, assigned, next, returned, only⟩
    rcases Allocator.allocatePages_represents represents .allocateAnyPages .loaderData 1 0 with
      ⟨next', returned', _⟩
    rw [returned] at returned'
    cases returned'
    have none := only (by decide)
    rw [represents.reports_iff] at none
    exact none ⟨7, 0, 0x40000, memoryWb⟩ List.mem_cons_self rfl ⟨0x100, by decide, by decide⟩

/-! ## Pool memory -/

/-- `allocate_pool`, where the pointer to the result has the given address: the status,
and what is written through the pointer. -/
def allocatePool (memoryType : MemoryType) (size address : UInt64) (allocator : Allocator) :
    Exec ((Status × Option UInt64) × Allocator) := do
  let ((status, newAddress), next) ← allocator.allocatePages .allocateAnyPages memoryType
    ((size + pageSize - 1) / pageSize) address
  if status = .success then
    return ((status, some newAddress), next)
  else
    return ((status, none), next)

/-- The call returns, and on success the bytes of the object were free and have the
requested type. -/
def PoolBigEnough (allocator : Allocator) (memoryType : MemoryType)
    (size address : UInt64) : Prop :=
  ∃ status stored next,
    allocatePool memoryType size address allocator = .ok ((status, stored), next) ∧
    (status = .success → ∃ assigned, stored = some assigned ∧
      allocator.Reports fun regions => next.Reports fun regions' =>
        ∀ byte, assigned.toNat ≤ byte → byte < assigned.toNat + size.toNat →
          typeAt regions byte = some MemoryType.conventionalMemory.toUInt32 ∧
            typeAt regions' byte = some memoryType.toUInt32)

/-- Rounding up to pages does not wrap, or there is not even memory for no page. -/
def PoolCovered (size : UInt64) (regions : List Region) : Prop :=
  size.toNat ≤ 2 ^ 64 - 4096 ∨ Calloc.NoMemory 0 regions

theorem le_pagesFor {size : UInt64} (small : size.toNat ≤ 2 ^ 64 - 4096) :
    size.toNat ≤ 4096 * (Calloc.pagesFor size).toNat := by
  have fits : size.toNat + 4095 < 2 ^ 64 := by omega
  rw [Calloc.pagesFor_toNat, Nat.mod_eq_of_lt fits]
  omega

theorem pagesFor_eq_zero {size : UInt64} (large : 2 ^ 64 - 4096 < size.toNat) :
    Calloc.pagesFor size = 0 := by
  have bound := size.toNat_lt
  apply UInt64.toNat_inj.mp
  rw [Calloc.pagesFor_toNat]
  change _ = 0
  omega

theorem Laid.typeAt_eq_none {regions : List Region} (laid : Laid regions) {byte : Nat}
    (beyond : 2 ^ 64 ≤ byte) : typeAt regions byte = none := by
  rw [typeAt, Span.labelAt_eq_none_iff]
  rintro ⟨span, member, _, upper⟩
  rcases List.mem_map.mp member with ⟨region, regionMember, equal⟩
  have below := laid.below region regionMember
  rw [← equal, Region.span_upper] at upper
  omega

theorem allocatePool_represents (represents : allocator.Represents map) (memoryType : MemoryType)
    (size address : UInt64) :
    let outcome := map.allocate .allocateAnyPages memoryType (Calloc.pagesFor size) 0
    ∃ next,
      allocatePool memoryType size address allocator =
        .ok ((outcome.1.1, if outcome.1.1 = .success then some outcome.1.2 else none), next) ∧
      next.Represents outcome.2 := by
  intro outcome
  rcases Allocator.allocatePages_represents represents .allocateAnyPages memoryType
      (Calloc.pagesFor size) address with ⟨next, returned, kept⟩
  have same : map.allocate .allocateAnyPages memoryType (Calloc.pagesFor size) address =
      outcome := rfl
  rw [same] at returned kept
  rw [Calloc.pagesFor] at returned
  refine ⟨next, ?_, kept⟩
  rw [allocatePool, returned]
  simp only [Exec.ok_bind]
  split_ifs <;> rfl

theorem poolBigEnough_iff_map (represents : allocator.Represents map) (laid : Laid map.regions)
    (memoryType : MemoryType) (size address : UInt64) :
    PoolBigEnough allocator memoryType size address ↔ PoolCovered size map.regions := by
  rcases allocatePool_represents represents memoryType size address with
    ⟨next, returned, kept⟩
  have served := Calloc.allocate_success_iff map memoryType (Calloc.pagesFor size)
  rcases laid.allocate (bounded_anyPages _ _) memoryType with ⟨_, wereFree, types⟩
  constructor
  · rintro ⟨status, stored, next', returned', effect⟩
    rw [returned] at returned'
    cases returned'
    by_contra uncovered
    rw [PoolCovered, not_or, Nat.not_le] at uncovered
    have zero := pagesFor_eq_zero uncovered.1
    have success := served.mpr (by rw [zero]; exact uncovered.2)
    rcases effect success with ⟨assigned, stored, types'⟩
    rw [if_pos success, Option.some.injEq] at stored
    rw [represents.reports_iff, kept.reports_iff] at types'
    -- The object would extend beyond the address space.
    rcases MemoryMap.allocate_start (by decide) success with ⟨region, _, serves, start⟩
    have above := ((region.canServe_anyPages_iff _ _).mp serves).2.1
    have bound := assigned.toNat_lt
    have lower : 0x100000 < assigned.toNat := by
      rw [← stored, start]
      exact above
    have free := (types' (2 ^ 64) (by omega) (by omega)).1
    rw [laid.typeAt_eq_none (Nat.le_refl _)] at free
    cases free
  · intro covered
    refine ⟨_, _, next, returned, ?_⟩
    intro success
    refine ⟨_, if_pos success, ?_⟩
    rw [represents.reports_iff, kept.reports_iff]
    intro byte lower upper
    have small : size.toNat ≤ 2 ^ 64 - 4096 := by
      rcases covered with small | noMemory
      · exact small
      · by_contra large
        rw [pagesFor_eq_zero (Nat.lt_of_not_le large)] at served
        exact served.mp (by rw [← pagesFor_eq_zero (Nat.lt_of_not_le large)]; exact success)
          noMemory
    have rounded := le_pagesFor small
    have granted : Granted
        (map.allocate .allocateAnyPages memoryType (Calloc.pagesFor size) 0).1
        (Calloc.pagesFor size) byte := ⟨success, lower, by omega⟩
    exact ⟨wereFree byte granted, (types byte).trans (if_pos granted)⟩

/-- In every state reached without a request that wraps around into a descriptor, pool
memory is as big as the requested size if and only if the size can be rounded up in 64
bits or there is no memory to hand out. -/
theorem poolBigEnough_iff_covered (initial : List InitialRegion)
    (inOrder : InitialRegion.InOrder initial) (operations : List Operation)
    (calls : ∀ operation ∈ operations, ServiceCall operation)
    (unserved : NoServedWrap (history initial operations)) :
    ∃ responses allocator,
      run Allocator.new (history initial operations) = .ok (responses, allocator) ∧
      ∀ memoryType size address,
        (PoolBigEnough allocator memoryType size address ↔
          allocator.Reports (PoolCovered size)) := by
  rcases run_represents Allocator.new_represents (history initial operations) with
    ⟨allocator, ran, represents⟩
  refine ⟨_, allocator, ran, ?_⟩
  intro memoryType size address
  rw [represents.reports_iff]
  exact poolBigEnough_iff_map represents (unserved.laid inOrder calls) memoryType size address

theorem poolBigEnough_iff_covered_one_region :
    ∃ responses allocator,
      run Allocator.new (history sixteenPages []) = .ok (responses, allocator) ∧
      ∀ memoryType size address,
        (PoolBigEnough allocator memoryType size address ↔
          allocator.Reports (PoolCovered size)) := by
  apply poolBigEnough_iff_covered
  · exact sixteenPages_inOrder
  · simp
  · apply noServedWrap_of_bounded
    simp [history, sixteenPages, InitialRegion.operation]

/-- The largest size is rounded to no page at all, and the call succeeds. -/
theorem not_poolBigEnough_largest :
    ∃ responses allocator,
      run Allocator.new (history sixteenPages []) = .ok (responses, allocator) ∧
      ¬PoolBigEnough allocator .loaderData 0xffffffffffffffff 0 := by
  rcases run_represents Allocator.new_represents (history sixteenPages []) with
    ⟨allocator, ran, represents⟩
  refine ⟨_, allocator, ran, ?_⟩
  rintro ⟨status, stored, next, returned, effect⟩
  rcases allocatePool_represents represents .loaderData 0xffffffffffffffff 0 with
    ⟨next', returned', kept⟩
  rw [returned] at returned'
  cases returned'
  rcases effect (by decide) with ⟨assigned, stored, types⟩
  rw [represents.reports_iff, kept.reports_iff] at types
  have start : assigned = 0x200000 := by
    have equal : some 0x200000 = some assigned := stored
    exact (Option.some.inj equal).symm
  have free := (types 0x210000 (by rw [start]; decide) (by rw [start]; decide)).1
  exact absurd free (by decide)

end HypervisorFirmware.Alloc
