import HypervisorFirmware.Alloc.ByteTypes
import HypervisorFirmware.Alloc.ChainIntegrity

/-! # Memory is conserved

The regions handed over at the start are the memory there is: whatever is
allocated and freed afterwards, the descriptors stay in ascending order, never
overlap, and describe exactly those bytes. -/

namespace HypervisorFirmware.Alloc

open Efi

structure InitialRegion where
  memoryType : MemoryType
  pageCount : UInt64
  address : UInt64
  attributes : UInt64

namespace InitialRegion

section

variable (initial : InitialRegion)

def bottom : Nat := initial.address.toNat

def top : Nat :=
  initial.bottom + 4096 * initial.pageCount.toNat

def operation : Operation :=
  .addInitialAllocation initial.memoryType initial.pageCount initial.address
    initial.attributes

def region : Region where
  type := initial.memoryType.toUInt32
  physicalStart := initial.address
  numberOfPages := initial.pageCount
  attributes := initial.attributes

@[simp] theorem bottom_region :
    initial.region.bottom = initial.bottom := rfl

@[simp] theorem top_region : initial.region.top = initial.top := rfl

end

structure InOrder (initial : List InitialRegion) : Prop where
  ascending : initial.Pairwise fun left right => left.top ≤ right.bottom
  below : ∀ region ∈ initial, region.top < 2 ^ 64

def accepted : List InitialRegion → List Response → List InitialRegion
  | initial :: rest, response :: responses =>
    if response.status = .success then initial :: accepted rest responses
    else accepted rest responses
  | _, _ => []

theorem accepted_sublist (initial : List InitialRegion) (responses : List Response) :
    (accepted initial responses).Sublist initial := by
  induction initial generalizing responses with
  | nil => simp [accepted]
  | cons head rest induction =>
    cases responses with
    | nil => simp [accepted]
    | cons response responses =>
      rw [accepted]
      split_ifs
      · exact (induction responses).cons_cons head
      · exact (induction responses).cons head

theorem InOrder.laid {initial : List InitialRegion} (inOrder : InOrder initial) :
    Laid (initial.map region) := by
  constructor
  · rw [Span.Ascending, List.map_map, List.pairwise_map]
    exact inOrder.ascending
  · intro described member
    rcases List.mem_map.mp member with ⟨source, sourceMember, equal⟩
    subst equal
    exact inOrder.below source sourceMember

theorem InOrder.sublist {initial kept : List InitialRegion}
    (inOrder : InOrder initial) (sublist : kept.Sublist initial) : InOrder kept :=
  ⟨inOrder.ascending.sublist sublist,
    fun region member => inOrder.below region (sublist.subset member)⟩

end InitialRegion

def sixteenPages : List InitialRegion := [⟨.conventionalMemory, 0x10, 0x200000, memoryWb⟩]

theorem sixteenPages_inOrder : InitialRegion.InOrder sixteenPages :=
  ⟨List.pairwise_singleton _ _, by decide⟩

theorem MemoryMap.step_initial (map : MemoryMap) (initial : InitialRegion) :
    (map.room = 0 ∧ (map.step initial.operation).1.status = .outOfResources ∧
      (map.step initial.operation).2.regions = map.regions) ∨
    ((map.step initial.operation).1.status = .success ∧
      (map.step initial.operation).2.regions = map.regions ++ [initial.region]) := by
  cases room : map.room with
  | zero =>
    left
    simp [InitialRegion.operation, step, addRegion, room]
  | succ room =>
    right
    simp [InitialRegion.operation, InitialRegion.region, step, addRegion, room]

theorem MemoryMap.run_initial (map : MemoryMap) (initial : List InitialRegion) :
    (map.run (initial.map InitialRegion.operation)).regions = map.regions ++
      (InitialRegion.accepted initial
        (map.responses (initial.map InitialRegion.operation))).map InitialRegion.region := by
  induction initial generalizing map with
  | nil => simp [InitialRegion.accepted]
  | cons first rest induction =>
    rw [List.map_cons, run_cons, responses, induction, InitialRegion.accepted]
    rcases map.step_initial first with ⟨_, failed, same⟩ | ⟨succeeded, added⟩
    · rw [same, failed]
      simp
    · rw [added, succeeded]
      simp

theorem MemoryMap.run_initial_of_room (map : MemoryMap) (initial : List InitialRegion)
    (enough : map.regions.length + initial.length ≤ maxAllocations) :
    (map.run (initial.map InitialRegion.operation)).regions =
      map.regions ++ initial.map InitialRegion.region := by
  induction initial generalizing map with
  | nil => simp
  | cons first rest induction =>
    rw [List.length_cons] at enough
    rcases map.step_initial first with ⟨full, _, _⟩ | ⟨_, added⟩
    · rw [room] at full
      omega
    · rw [List.map_cons, run_cons, induction _ (by rw [added]; simp; omega), added]
      simp

theorem MemoryMap.run_initial_regions (initial : List InitialRegion) :
    (empty.run (initial.map InitialRegion.operation)).regions =
      (InitialRegion.accepted initial
        (empty.responses (initial.map InitialRegion.operation))).map
          InitialRegion.region := by
  rw [run_initial]
  rfl

theorem InitialRegion.InOrder.laid_run {initial : List InitialRegion} (inOrder : InOrder initial) :
    Laid (MemoryMap.empty.run (initial.map operation)).regions := by
  rw [MemoryMap.run_initial_regions]
  exact (inOrder.sublist (accepted_sublist initial _)).laid

theorem covers_iff_typeAt (regions : List Region) (byte : Nat) :
    Span.Covers (regions.map Region.span) byte ↔ (typeAt regions byte).isSome = true := by
  have missing := Span.labelAt_eq_none_iff (regions.map Region.span) byte
  rw [typeAt, Option.isSome_iff_ne_none]
  tauto

/-- A call of `allocate_pages` or `free_pages`; an `AllocateAddress` request
names only bytes below `2^64`. -/
def PageCall : Operation → Prop
  | .allocatePages allocateType _ pageCount address =>
    Bounded allocateType pageCount address
  | .freePages _ => True
  | _ => False

theorem step_conserves {map : MemoryMap} (laid : Laid map.regions)
    {operation : Operation} (call : PageCall operation) :
    Laid (map.step operation).2.regions ∧
      ∀ byte, (typeAt (map.step operation).2.regions byte).isSome =
        (typeAt map.regions byte).isSome := by
  cases operation with
  | addInitialAllocation => cases call
  | updateVirtualAddresses => cases call
  | allocatePages allocateType memoryType pageCount address =>
    rcases laid.allocate call memoryType with ⟨kept, wereFree, types⟩
    refine ⟨kept, ?_⟩
    intro byte
    change (typeAt (map.allocate _ _ _ _).2.regions byte).isSome = _
    rw [types byte]
    split_ifs with granted
    · rw [wereFree byte granted]
      rfl
    · rfl
  | freePages address =>
    rcases laid.free address with ⟨kept, types⟩
    refine ⟨kept, ?_⟩
    intro byte
    change (typeAt (map.free address).2.regions byte).isSome = _
    rw [types byte]
    cases found : map.regions.find? fun region => region.physicalStart == address with
    | none => rfl
    | some region =>
      simp only
      split_ifs with contains
      · rw [laid.typeAt_of_mem (List.mem_of_find?_eq_some found) contains]
        rfl
      · rfl

theorem run_conserves {map : MemoryMap} (laid : Laid map.regions)
    {operations : List Operation} (calls : ∀ operation ∈ operations, PageCall operation) :
    Laid (map.run operations).regions ∧
      ∀ byte, (typeAt (map.run operations).regions byte).isSome =
        (typeAt map.regions byte).isSome := by
  induction operations generalizing map with
  | nil => exact ⟨laid, fun _ => rfl⟩
  | cons operation rest induction =>
    rcases step_conserves laid (calls operation List.mem_cons_self) with ⟨kept, same⟩
    rcases induction kept fun later member =>
        calls later (List.mem_cons_of_mem _ member) with ⟨finalLaid, finalSame⟩
    exact ⟨finalLaid, fun byte => (finalSame byte).trans (same byte)⟩

/-- The initial regions and the calls after them all return, and the descriptors
then are ascending, pairwise disjoint, and cover exactly the bytes of the initial
regions that were accepted. -/
def Conserves (initial : List InitialRegion) (operations : List Operation) : Prop :=
  ∃ added started responses allocator descriptors,
    run Allocator.new (initial.map InitialRegion.operation) = .ok (added, started) ∧
    run started operations = .ok (responses, allocator) ∧
    allocator.reportedMap = .ok descriptors ∧
    (descriptors.Pairwise fun left right => left.top ≤ right.bottom) ∧
    (descriptors.Pairwise fun left right =>
      ∀ byte, ¬(left.span.Contains byte ∧ right.span.Contains byte)) ∧
    ∀ byte, (∃ descriptor ∈ descriptors, descriptor.span.Contains byte) ↔
      ∃ region ∈ InitialRegion.accepted initial added,
        region.bottom ≤ byte ∧ byte < region.top

/-- Conservation over all runs: no sequence of allocations and frees, successful
or not, loses, duplicates or invents a byte. -/
theorem memory_conserved (initial : List InitialRegion)
    (inOrder : InitialRegion.InOrder initial) (operations : List Operation)
    (calls : ∀ operation ∈ operations, PageCall operation) :
    Conserves initial operations := by
  rcases run_represents Allocator.new_represents
      (initial.map InitialRegion.operation) with ⟨started, ranInitial, startedRepresents⟩
  rcases run_represents startedRepresents operations with ⟨allocator, ran, represents⟩
  have startedRegions := MemoryMap.run_initial_regions initial
  rcases run_conserves inOrder.laid_run calls with ⟨laid, same⟩
  rcases represents.reportedMap with ⟨descriptors, reported, regions⟩
  have spans : descriptors.map (fun descriptor => descriptor.span) =
      ((MemoryMap.empty.run (initial.map InitialRegion.operation)).run
        operations).regions.map Region.span := by
    rw [← regions, List.map_map]
    rfl
  have ascending := laid.ascending
  have disjoint := laid.ascending.disjoint
  rw [← spans] at disjoint
  rw [← spans, Span.Ascending] at ascending
  refine ⟨_, started, _, allocator, descriptors, ranInitial, ran, reported, ?_, ?_, ?_⟩
  · exact List.pairwise_map.mp ascending
  · exact List.pairwise_map.mp disjoint
  · intro byte
    have covered := covers_iff_typeAt
      ((MemoryMap.empty.run (initial.map InitialRegion.operation)).run operations).regions byte
    rw [same byte, ← covers_iff_typeAt, ← spans, startedRegions] at covered
    simpa [Span.Covers, Span.Contains] using covered

theorem memory_conserved_two_regions :
    Conserves
      [⟨.conventionalMemory, 0x100, 0x100000, memoryWb⟩,
        ⟨.conventionalMemory, 0x1000, 0x200000, memoryWb⟩]
      [.allocatePages .allocateAddress .loaderCode 3 0x300800,
        .allocatePages .allocateAnyPages .loaderData 0 0, .freePages 0x300000] := by
  apply memory_conserved
  · exact ⟨by simp [InitialRegion.top, InitialRegion.bottom], by
      simp [InitialRegion.top, InitialRegion.bottom]⟩
  · simp [PageCall, Bounded]

end HypervisorFirmware.Alloc
