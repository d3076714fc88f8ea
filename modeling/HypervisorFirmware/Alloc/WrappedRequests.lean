import HypervisorFirmware.Alloc.Conservation

/-! # Requests that wrap around

`find_free_memory` computes the end of an `AllocateAddress` request in wrapping
arithmetic. A request that reaches `2^64` is then compared with a small address,
and a region can pass the test without the pages that the request asks for. -/

namespace HypervisorFirmware.Alloc

open Efi

/-- A request that reaches `2^64` finds no conventional region that starts at or
below it and ends at or above its wrapped end. -/
def WrapUnserved (pageCount address : UInt64) (regions : List Region) : Prop :=
  2 ^ 64 ≤ address.toNat + 4096 * pageCount.toNat →
    ∀ region ∈ regions, region.isConventional = true → region.bottom ≤ address.toNat →
      region.top < (address.toNat + 4096 * pageCount.toNat) % 2 ^ 64

namespace Region

theorem canServe_address_iff {region : Region} (below : region.top < 2 ^ 64)
    (pageCount address : UInt64) :
    region.canServe .allocateAddress pageCount address = true ↔
      region.isConventional = true ∧ region.bottom ≤ address.toNat ∧
        (address.toNat + 4096 * pageCount.toNat) % 2 ^ 64 ≤ region.top := by
  have requestEnd : (address + pageSize * pageCount).toNat =
      (address.toNat + 4096 * pageCount.toNat) % 2 ^ 64 := by
    rw [UInt64.toNat_add, UInt64.toNat_mul, pageSize_toNat]
    omega
  simp only [canServe, Bool.and_eq_true, decide_eq_true_eq, ge_iff_le]
  rw [UInt64.le_iff_toNat_le, UInt64.le_iff_toNat_le, requestEnd, end_toNat below]
  rfl

end Region

variable {allocateType : AllocateType} {pageCount : UInt64} {operations : List Operation}

theorem fits_of_find?_canServe {regions : List Region}
    (below : ∀ region ∈ regions, region.top < 2 ^ 64)
    {address : UInt64}
    (unserved : allocateType = .allocateAddress → WrapUnserved pageCount address regions)
    {region : Region}
    (found : regions.find? (Region.canServe allocateType pageCount address) = some region) :
    region.Fits allocateType pageCount address := by
  have member := List.mem_of_find?_eq_some found
  have serves : region.canServe allocateType pageCount address = true := List.find?_some found
  apply Region.fits_of_canServe (below region member) _ serves
  intro isAddress
  subst isAddress
  by_contra wraps
  rcases (Region.canServe_address_iff (below region member) _ _).mp serves with
    ⟨conventional, lower, upper⟩
  have missed := unserved rfl (by omega) region member conventional lower
  omega

/-! ## The pages that are split off -/

structure SplitCall where
  available : UInt64
  pages : UInt64
  deriving DecidableEq, Repr

namespace Allocator

section

variable (allocator : Allocator) (dest : Slot) (allocateType : AllocateType)
  (pageCount address : UInt64)

def splitCalls : List SplitCall :=
  let found := allocator.region dest
  if found.numberOfPages = pageCount then
    []
  else
    match allocateType with
    | .allocateAddress =>
      if found.physicalStart = address then
        [⟨found.numberOfPages, pageCount⟩]
      else
        let pages := (address - found.physicalStart) / pageSize
        ⟨found.numberOfPages, pages⟩ ::
          match allocator.splitAllocation dest pages with
          | (none, _) => []
          | (some split, allocator) =>
            let second := allocator.region split
            if second.numberOfPages > pageCount then
              [⟨second.numberOfPages, pageCount⟩]
            else
              []
    | .allocateMaxAddress | .allocateAnyPages => [⟨found.numberOfPages, pageCount⟩]

def SplitsWithin : Prop :=
  ∀ call ∈ allocator.splitCalls dest allocateType pageCount address,
    call.pages ≤ call.available

end

theorem splitsWithin_of_fits {allocator : Allocator} {dest : Slot}
    {allocateType : AllocateType} {pageCount address : UInt64}
    (fits : (allocator.region dest).Fits allocateType pageCount address) :
    allocator.SplitsWithin dest allocateType pageCount address := by
  have enough : pageCount ≤ (allocator.region dest).numberOfPages :=
    UInt64.le_iff_toNat_le.mpr fits.pages
  intro call member
  unfold splitCalls at member
  by_cases identical : (allocator.region dest).numberOfPages = pageCount
  · simp [identical] at member
  · simp only [identical, if_false] at member
    cases allocateType with
    | allocateMaxAddress =>
      rw [List.mem_singleton.mp member]
      exact enough
    | allocateAnyPages =>
      rw [List.mem_singleton.mp member]
      exact enough
    | allocateAddress =>
      by_cases first : (allocator.region dest).physicalStart = address
      · simp only [first, if_true, List.mem_singleton] at member
        rw [member]
        exact enough
      · simp only [first, if_false] at member
        rcases List.mem_cons.mp member with isFirst | isSecond
        · have before := fits.pages_before
          rw [isFirst, UInt64.le_iff_toNat_le]
          exact Nat.le_trans (Nat.le_add_right _ _) before
        · -- The second call is guarded by the comparison itself.
          split at isSecond
          · cases isSecond
          · split at isSecond
            · rename_i bigger
              rw [List.mem_singleton.mp isSecond]
              exact UInt64.le_of_lt bigger
            · cases isSecond

/-- An `AllocateAddress` request gets only a descriptor that contains the requested
range, computed without wrapping, and no allocation of that many pages splits a
descriptor with fewer. -/
structure InRange (allocator : Allocator) (pageCount address : UInt64) : Prop where
  found : ∀ dest, allocator.findFreeMemory .allocateAddress pageCount address =
    .ok (some dest) →
      (allocator.region dest).bottom ≤ address.toNat ∧
        address.toNat + 4096 * pageCount.toNat ≤ (allocator.region dest).top
  splits : ∀ allocateType dest,
    allocator.findFreeMemory allocateType pageCount address = .ok (some dest) →
      allocator.SplitsWithin dest allocateType pageCount address

end Allocator

/-- In every state whose descriptors end below `2^64`, whatever calls led to it, a
request gets only memory in its range if and only if it does not wrap around into
one of the descriptors. -/
theorem inRange_iff_wrap_unserved {operations : List Operation} {responses : List Response}
    {allocator : Allocator} (ran : run Allocator.new operations = .ok (responses, allocator))
    (below : allocator.Reports fun regions => ∀ region ∈ regions, region.top < 2 ^ 64)
    (pageCount address : UInt64) :
    allocator.InRange pageCount address ↔
      allocator.Reports (WrapUnserved pageCount address) := by
  have represents := represents_of_run Allocator.new_represents ran
  rw [represents.reports_iff] at below ⊢
  constructor
  · intro inRange wraps region member conventional lower
    by_contra reaches
    have serves : region.canServe .allocateAddress pageCount address = true :=
      (Region.canServe_address_iff (below region member) _ _).mpr
        ⟨conventional, lower, by omega⟩
    rcases represents.findFreeMemory .allocateAddress pageCount address with
      ⟨found, searched, search⟩
    cases found with
    | none => exact List.find?_eq_none.mp search region member serves
    | some dest =>
      -- The descriptor ends below `2^64`, so it cannot contain the range.
      have destBelow := below _ (List.mem_of_find?_eq_some search)
      have inside := inRange.found dest searched
      omega
  · intro unserved
    have fits : ∀ allocateType dest,
        allocator.findFreeMemory allocateType pageCount address = .ok (some dest) →
          (allocator.region dest).Fits allocateType pageCount address := by
      intro allocateType dest found
      rcases represents.findFreeMemory allocateType pageCount address with
        ⟨found', searched, search⟩
      rw [found] at searched
      cases searched
      exact fits_of_find?_canServe below (fun _ => unserved) search
    constructor
    · intro dest found
      have inside := fits .allocateAddress dest found
      exact ⟨inside.lower rfl, inside.upper rfl⟩
    · intro allocateType dest found
      exact Allocator.splitsWithin_of_fits (fits allocateType dest found)

theorem inRange_iff_wrap_unserved_one_region :
    ∃ responses allocator,
      run Allocator.new [.addInitialAllocation .conventionalMemory 0x10 0x200000 memoryWb] =
        .ok (responses, allocator) ∧
      (allocator.InRange 1 0x208000 ↔ allocator.Reports (WrapUnserved 1 0x208000)) := by
  rcases run_represents Allocator.new_represents
      [.addInitialAllocation .conventionalMemory 0x10 0x200000 memoryWb] with
    ⟨allocator, ran, represents⟩
  refine ⟨_, allocator, ran, inRange_iff_wrap_unserved ran ?_ 1 0x208000⟩
  rw [represents.reports_iff]
  simp [MemoryMap.empty, MemoryMap.step, MemoryMap.addRegion, MemoryMap.room, Region.top,
    Region.bottom]

/-- A request for `2^52 + 1` pages ends, wrapped, after its first page, so a descriptor
of 16 pages serves it and is split for more pages than it has. -/
theorem not_inRange_wrapped :
    ∃ responses allocator,
      run Allocator.new [.addInitialAllocation .conventionalMemory 0x10 0x200000 memoryWb] =
        .ok (responses, allocator) ∧
      (allocator.Reports fun regions => ∀ region ∈ regions, region.top < 2 ^ 64) ∧
      ¬allocator.InRange 0x10000000000001 0x200000 := by
  rcases run_represents Allocator.new_represents
      [.addInitialAllocation .conventionalMemory 0x10 0x200000 memoryWb] with
    ⟨allocator, ran, represents⟩
  refine ⟨_, allocator, ran, ?_, ?_⟩
  · rw [represents.reports_iff]
    simp [MemoryMap.empty, MemoryMap.step, MemoryMap.addRegion, MemoryMap.room, Region.top,
      Region.bottom]
  · intro inRange
    rcases represents.findFreeMemory .allocateAddress 0x10000000000001 0x200000 with
      ⟨found, searched, search⟩
    cases found with
    | none =>
      rw [Option.map_none] at search
      exact absurd search (by decide)
    | some dest =>
      have region : some ⟨7, 0x200000, 0x10, memoryWb⟩ = some (allocator.region dest) :=
        search
      have inside := (inRange.found dest searched).2
      rw [← Option.some.inj region] at inside
      exact absurd inside (by decide)

/-! ## Runs without served wraps -/

def ServiceCall : Operation → Prop
  | .addInitialAllocation .. => False
  | _ => True

def CallUnserved : Operation → List Region → Prop
  | .allocatePages .allocateAddress _ pageCount address, regions =>
    WrapUnserved pageCount address regions
  | _, _ => True

theorem CallUnserved.fits {memoryType : MemoryType}
    {address : UInt64} {regions : List Region} (laid : Laid regions)
    (unserved : CallUnserved (.allocatePages allocateType memoryType pageCount address)
      regions) {region : Region}
    (found : regions.find? (Region.canServe allocateType pageCount address) = some region) :
    region.Fits allocateType pageCount address := by
  apply fits_of_find?_canServe laid.below _ found
  intro isAddress
  subst isAddress
  exact unserved

theorem Laid.step {map : MemoryMap} (laid : Laid map.regions) {operation : Operation}
    (call : ServiceCall operation) (unserved : CallUnserved operation map.regions) :
    Laid (map.step operation).2.regions := by
  cases operation with
  | addInitialAllocation => cases call
  | allocatePages allocateType memoryType pageCount address =>
    exact (laid.allocate_of_fits (fun _ found => unserved.fits laid found) memoryType).laid
  | freePages address => exact (laid.free address).1
  | updateVirtualAddresses descriptors => exact laid

theorem Laid.run {map : MemoryMap} (laid : Laid map.regions)
    (calls : ∀ operation ∈ operations, ServiceCall operation)
    (unserved : ∀ before operation after, operations = before ++ operation :: after →
      CallUnserved operation (map.run before).regions) :
    Laid (map.run operations).regions := by
  induction operations generalizing map with
  | nil => exact laid
  | cons operation rest induction =>
    have kept := laid.step (calls operation List.mem_cons_self) (unserved [] operation rest rfl)
    apply induction kept
    · intro later member
      exact calls later (List.mem_cons_of_mem _ member)
    · intro before later after split
      exact unserved (operation :: before) later after (by rw [split]; rfl)

def history (initial : List InitialRegion) (operations : List Operation) : List Operation :=
  initial.map InitialRegion.operation ++ operations

def NoServedWrap (operations : List Operation) : Prop :=
  Machine.EveryStep step (fun allocator operation => allocator.Reports (CallUnserved operation))
    Allocator.new operations

theorem noServedWrap_of_bounded (bounded : ∀ memoryType pageCount address,
      .allocatePages .allocateAddress memoryType pageCount address ∈ operations →
        address.toNat + 4096 * pageCount.toNat < 2 ^ 64) :
    NoServedWrap operations := by
  rw [NoServedWrap, everyStep_reports_iff Allocator.new_represents]
  intro before operation after split
  cases operation with
  | addInitialAllocation => trivial
  | freePages => trivial
  | updateVirtualAddresses => trivial
  | allocatePages allocateType memoryType pageCount address =>
    cases allocateType with
    | allocateMaxAddress => trivial
    | allocateAnyPages => trivial
    | allocateAddress =>
      intro wraps
      have inRange := bounded memoryType pageCount address (by simp [split])
      omega

/-- As long as no request wraps around into a descriptor, descriptors stay in address
order and below `2^64`. -/
theorem NoServedWrap.laid {initial : List InitialRegion} (inOrder : InitialRegion.InOrder initial)
    (calls : ∀ operation ∈ operations, ServiceCall operation)
    (unserved : NoServedWrap (history initial operations)) :
    Laid (MemoryMap.empty.run (history initial operations)).regions := by
  rw [NoServedWrap, everyStep_reports_iff Allocator.new_represents] at unserved
  rw [history, MemoryMap.run_append]
  apply inOrder.laid_run.run calls
  intro before operation after split
  rw [← MemoryMap.run_append]
  apply unserved _ operation after
  rw [history, split]
  simp

end HypervisorFirmware.Alloc
