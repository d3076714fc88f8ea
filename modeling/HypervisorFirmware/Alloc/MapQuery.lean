import Mathlib.Algebra.GroupWithZero.Nat
import HypervisorFirmware.Alloc.MapKey
import HypervisorFirmware.Alloc.VirtualAddresses

/-! # Querying the memory map

A caller of `get_memory_map` asks for the size, makes room for the descriptors and
asks again. Making room is itself a call that changes the map. What it is given it hands
back to `set_virtual_address_map` later. -/

namespace HypervisorFirmware.Alloc

open Efi

/-- `size_of::<MemoryDescriptor>()`. -/
def descriptorSize : Nat := 40

/-- What is behind the pointers that `get_memory_map` is given. -/
structure MapQuery where
  memoryMapSize : Nat
  out : List MemoryDescriptor
  key : UInt64
  descriptorSize : Nat
  descriptorVersion : UInt32
  deriving DecidableEq, Repr

/-- There is memory behind `out` for as much as the caller says. -/
def MapQuery.Backed (query : MapQuery) : Prop :=
  query.memoryMapSize / Alloc.descriptorSize ≤ query.out.length

def Allocator.getMemoryMap (allocator : Allocator) (query : MapQuery) :
    Exec (Status × MapQuery) := do
  let count ← allocator.getDescriptorCount
  let mapSize := descriptorSize * count
  if query.memoryMapSize < mapSize then
    return (.bufferTooSmall, { query with memoryMapSize := mapSize })
  else
    let (written, out) ← allocator.getDescriptors (query.out.take count)
    return (.success,
      { memoryMapSize := descriptorSize * written
        out := out ++ query.out.drop count
        key := allocator.getMapKey
        descriptorSize := descriptorSize
        descriptorVersion := 1 })

/-- The map as it is handed out. -/
def MapQuery.answered (query : MapQuery) (descriptors : List MemoryDescriptor) (key : UInt64) :
    MapQuery where
  memoryMapSize := Alloc.descriptorSize * descriptors.length
  out := descriptors ++ query.out.drop descriptors.length
  key := key
  descriptorSize := Alloc.descriptorSize
  descriptorVersion := 1

variable {allocator : Allocator} {map : MemoryMap}

theorem Allocator.Represents.getMemoryMap (represents : allocator.Represents map) :
    ∃ descriptors, allocator.reportedMap = .ok descriptors ∧
      descriptors.length = map.regions.length ∧
      ∀ query : MapQuery, query.Backed → ∃ status answer,
        allocator.getMemoryMap query = .ok (status, answer) ∧
        answer.memoryMapSize = descriptorSize * descriptors.length ∧
        if query.memoryMapSize < answer.memoryMapSize then
          status = .bufferTooSmall ∧
            answer = { query with memoryMapSize := answer.memoryMapSize }
        else
          status = .success ∧ answer = query.answered descriptors allocator.getMapKey := by
  rcases represents with ⟨slots, linked, regions, _⟩
  refine ⟨_, linked.reportedMap, by rw [← regions]; simp, ?_⟩
  intro query backed
  rw [List.length_map, Allocator.getMemoryMap, linked.getDescriptorCount]
  simp only [Exec.ok_bind]
  split_ifs with short
  · exact ⟨_, _, rfl, rfl, by simp [short]⟩
  · have room : slots.length ≤ query.out.length := by
      rw [MapQuery.Backed, descriptorSize] at backed
      rw [descriptorSize] at short
      omega
    rw [linked.getDescriptors _ (by simpa using room)]
    exact ⟨_, _, rfl, rfl, by simp [short, MapQuery.answered]⟩

/-- The table of linked slots refines the list of regions: every run, with any arguments,
returns what it returns on the list, and ends with the descriptors and the key of the list. -/
theorem run_refines_memoryMap (operations : List Operation) :
    ∃ allocator descriptors,
      run Allocator.new operations = .ok (MemoryMap.empty.responses operations, allocator) ∧
      allocator.reportedMap = .ok descriptors ∧
      descriptors.map MemoryDescriptor.toRegion = (MemoryMap.empty.run operations).regions ∧
      allocator.getMapKey = (MemoryMap.empty.run operations).key := by
  rcases run_represents Allocator.new_represents operations with ⟨allocator, ran, represents⟩
  rcases represents.reportedMap with ⟨descriptors, reported, regions⟩
  rcases represents with ⟨_, _, _, key⟩
  exact ⟨allocator, descriptors, ran, reported, regions, key⟩

/-! ## How far calls in between can grow the map -/

theorem Region.length_place_le (allocateType : AllocateType) (memoryType : MemoryType)
    (pageCount address : UInt64) (room : Nat) (region : Region) :
    (region.place allocateType memoryType pageCount address room).2.length ≤ 3 := by
  unfold place placeAtStart placeInside
  dsimp only
  (repeat' split) <;> simp

theorem MemoryMap.length_merge_le (regions : List Region) :
    (merge regions).length ≤ regions.length := by
  cases regions with
  | nil => exact Nat.le_refl 0
  | cons first rest => exact length_mergeFrom_le first rest

/-- How many descriptors a call can add. -/
def Operation.growth : Operation → Nat
  | .addInitialAllocation .. => 1
  | .allocatePages .. => 2
  | .freePages _ | .updateVirtualAddresses _ => 0

theorem MemoryMap.length_step_le (map : MemoryMap) (operation : Operation) :
    (map.step operation).2.regions.length ≤ map.regions.length + operation.growth := by
  cases operation with
  | addInitialAllocation memoryType pageCount address attributes =>
    simp only [step, addRegion]
    split <;> simp [Operation.growth]
  | allocatePages allocateType memoryType pageCount address =>
    rcases map.allocate_cases allocateType memoryType pageCount address with
      ⟨_, failed⟩ | ⟨before, region, after, regionsEqual, _, _, allocated⟩
    · simp [step, failed]
    · have cut := region.length_place_le allocateType memoryType pageCount address map.room
      simp only [step, allocated, regionsEqual, List.length_append, List.length_cons,
        Operation.growth]
      omega
  | freePages address =>
    rcases map.free_cases address with ⟨_, failed⟩ | ⟨before, region, after, regionsEqual, _, _, _,
      freed⟩
    · simp [step, failed]
    · have merged := length_merge_le (before ++ [region.withType .conventionalMemory] ++ after)
      simpa [step, freed, regionsEqual, Operation.growth] using merged
  | updateVirtualAddresses descriptors => exact Nat.le_refl _

theorem MemoryMap.length_run_le (map : MemoryMap) (operations : List Operation) :
    (map.run operations).regions.length ≤
      map.regions.length + (operations.map Operation.growth).sum := by
  induction operations generalizing map with
  | nil => simp
  | cons operation rest induction =>
    have stepped := map.length_step_le operation
    have ran := induction (map.step operation).2
    rw [run_cons, List.map_cons, List.sum_cons]
    omega

/-- The query in two calls, with any calls before and in between. The first leaves the exact
size behind, and changes nothing else when it refuses. A second with room for that size and
two more descriptors for each `allocate_pages` in between (one for each region added)
delivers the map and its key. -/
theorem getMemoryMap_retry (before between : List Operation) :
    ∃ first asked known second final descriptors,
      run Allocator.new before = .ok (first, asked) ∧
      asked.reportedMap = .ok known ∧
      run asked between = .ok (second, final) ∧
      final.reportedMap = .ok descriptors ∧
      ∀ query retry : MapQuery, query.Backed → retry.Backed → ∃ status answer,
        asked.getMemoryMap query = .ok (status, answer) ∧
        answer.memoryMapSize = descriptorSize * known.length ∧
        (query.memoryMapSize < answer.memoryMapSize → status = .bufferTooSmall ∧
          answer = { query with memoryMapSize := answer.memoryMapSize }) ∧
        (answer.memoryMapSize + descriptorSize * (between.map Operation.growth).sum ≤
            retry.memoryMapSize →
          final.getMemoryMap retry =
            .ok (.success, retry.answered descriptors final.getMapKey)) := by
  rcases run_represents Allocator.new_represents before with ⟨asked, ran, represents⟩
  rcases run_represents represents between with ⟨final, ranOn, finalRepresents⟩
  rcases represents.getMemoryMap with ⟨known, knownReported, length, answers⟩
  rcases finalRepresents.getMemoryMap with ⟨descriptors, reported, finalLength, finalAnswers⟩
  have grown := (MemoryMap.empty.run before).length_run_le between
  refine ⟨_, asked, known, _, final, descriptors, ran, knownReported, ranOn, reported, ?_⟩
  intro query retry queryBacked retryBacked
  rcases answers query queryBacked with ⟨status, answer, asks, size, outcome⟩
  rcases finalAnswers retry retryBacked with ⟨_, answerThen, asksThen, sizeThen, outcomeThen⟩
  refine ⟨status, answer, asks, size, fun short => by rwa [if_pos short] at outcome,
    fun room => ?_⟩
  have enough : ¬retry.memoryMapSize < answerThen.memoryMapSize := by
    rw [descriptorSize] at size sizeThen room
    omega
  rw [if_neg enough] at outcomeThen
  rw [asksThen, outcomeThen.1, outcomeThen.2]

/-! ## Virtual addresses for the map -/

/-- `set_virtual_address_map`. The number of descriptors is computed before the version is
looked at, and they are taken to have the size that `get_memory_map` reports. -/
def Allocator.setVirtualAddressMap (allocator : Allocator) (mapSize descriptorSize : Nat)
    (version : UInt32) (descriptors : List MemoryDescriptor) : Exec (Status × Allocator) :=
  if descriptorSize = 0 then .error .panicked
  else if version ≠ 1 then .ok (.invalidParameter, allocator)
  else allocator.updateVirtualAddresses (descriptors.take (mapSize / descriptorSize))

def MemoryDescriptor.mapped (virtual : MemoryDescriptor → UInt64)
    (descriptor : MemoryDescriptor) : MemoryDescriptor :=
  { descriptor with virtualStart := virtual descriptor }

namespace Allocator

variable {allocator : Allocator} {slots : List Slot}

def start (allocator : Allocator) (slot : Slot) : UInt64 := (allocator.region slot).physicalStart

def virtualMap (allocator : Allocator) (slots : List Slot) (virtual : MemoryDescriptor → UInt64) :
    List MemoryDescriptor :=
  slots.map fun slot => (allocator.descriptor slot).mapped virtual

theorem isFirst_of_nodup (distinct : (slots.map allocator.start).Nodup) {slot : Slot}
    (member : slot ∈ slots) : allocator.IsFirst slots slot :=
  Selection.find?_key distinct member

theorem nodup_of_isFirst (nodup : slots.Nodup)
    (first : ∀ slot ∈ slots, allocator.IsFirst slots slot) : (slots.map allocator.start).Nodup := by
  refine nodup.map_on fun slot member other otherMember same => ?_
  have found := first slot member
  rw [IsFirst, ← start, same, start, first other otherMember] at found
  exact (Option.some.inj found).symm

theorem lastNaming_virtualMap (distinct : (slots.map allocator.start).Nodup) {slot : Slot}
    (member : slot ∈ slots) (virtual : MemoryDescriptor → UInt64) :
    lastNaming (allocator.region slot).physicalStart (allocator.virtualMap slots virtual) =
      some ((allocator.descriptor slot).mapped virtual) := by
  refine @Selection.find?_key _ _ _ (fun wanted : MemoryDescriptor => wanted.physicalStart) _
    ((allocator.descriptor slot).mapped virtual) ?_ ?_
  · rw [List.map_reverse, List.nodup_reverse, virtualMap, List.map_map]
    exact distinct
  · exact List.mem_reverse.mpr (List.mem_map_of_mem member)

/-- Each descriptor reads back as it is mapped, whatever the addresses, exactly if no two of
them start at the same place. -/
theorem Linked.updateVirtualAddresses_mapped (linked : allocator.Linked slots) :
    (∀ virtual, ∃ after,
      allocator.updateVirtualAddresses (allocator.virtualMap slots virtual) =
        .ok (.success, after) ∧
      after.reportedMap = .ok (allocator.virtualMap slots virtual)) ↔
    (slots.map allocator.start).Nodup := by
  have returned (virtual : MemoryDescriptor → UInt64) :
      allocator.updateVirtualAddresses (allocator.virtualMap slots virtual) =
        .ok (.success, allocator.withVirtual fun slot =>
          ((allocator.lastWrite slots slot (allocator.virtualMap slots virtual)).map
            MemoryDescriptor.virtualStart).getD (allocator.virtualStart slot)) := by
    have known : ∀ wanted ∈ allocator.virtualMap slots virtual, allocator.Known slots wanted :=
      List.forall_mem_map.mpr fun slot member => ⟨slot, member, rfl⟩
    have updated := linked.updateVirtualAddresses_eq (allocator.virtualMap slots virtual)
      allocator.virtualStart
    rwa [withVirtual_self, served_of_known known,
      if_pos fun wanted member => (isSome_target_iff wanted).mpr (known wanted member)] at updated
  constructor
  · intro all
    apply nodup_of_isFirst linked.nodup
    intro slot member
    by_contra later
    -- One that comes later keeps its address, also when it should be counted up.
    rcases all fun descriptor => descriptor.virtualStart + 1 with ⟨after, updates, reports⟩
    rw [returned] at updates
    cases updates
    rw [(linked.withVirtual _).reportedMap, Except.ok.injEq, virtualMap, List.map_inj_left]
      at reports
    have same := congrArg MemoryDescriptor.virtualStart (reports slot member)
    change (Option.map _ _).getD (allocator.virtualStart slot) =
      allocator.virtualStart slot + 1 at same
    rw [lastWrite_of_not_isFirst later] at same
    simp at same
  · intro distinct virtual
    refine ⟨_, returned virtual, ?_⟩
    rw [(linked.withVirtual _).reportedMap]
    congr 1
    apply List.map_congr_left
    intro slot member
    have written := lastWrite_of_isFirst (isFirst_of_nodup distinct member)
      (allocator.virtualMap slots virtual)
    rw [lastNaming_virtualMap distinct member] at written
    simp [Allocator.withVirtual, descriptor, written, MemoryDescriptor.mapped]

end Allocator

/-- The map goes to the operating system and comes back with virtual addresses. In every state
that calls lead to, all descriptors then have the addresses that were chosen for them,
whatever these are, exactly if no two start at the same physical address. -/
theorem virtualMap_reads_back_iff (operations : List Operation) :
    ∃ responses allocator descriptors,
      run Allocator.new operations = .ok (responses, allocator) ∧
      allocator.reportedMap = .ok descriptors ∧
      ∀ query : MapQuery, query.Backed →
        descriptorSize * descriptors.length ≤ query.memoryMapSize →
        ((∀ virtual, ∃ answer after,
          allocator.getMemoryMap query = .ok (.success, answer) ∧
          allocator.setVirtualAddressMap answer.memoryMapSize answer.descriptorSize
            answer.descriptorVersion (answer.out.map (·.mapped virtual)) =
              .ok (.success, after) ∧
          after.reportedMap = .ok (descriptors.map (·.mapped virtual))) ↔
        (descriptors.map (·.physicalStart)).Nodup) := by
  rcases run_represents Allocator.new_represents operations with ⟨allocator, ran, represents⟩
  rcases represents.getMemoryMap with ⟨descriptors, reported, -, answers⟩
  refine ⟨_, allocator, descriptors, ran, reported, fun query backed room => ?_⟩
  rcases represents with ⟨slots, linked, -, -⟩
  rw [linked.reportedMap] at reported
  cases reported
  rcases answers query backed with ⟨status, answer, asks, size, outcome⟩
  rw [if_neg (by omega)] at outcome
  rw [asks, outcome.1, outcome.2]
  have taken (virtual : MemoryDescriptor → UInt64) :
      allocator.setVirtualAddressMap (descriptorSize * (slots.map allocator.descriptor).length)
        descriptorSize 1 ((slots.map allocator.descriptor ++
          query.out.drop (slots.map allocator.descriptor).length).map (·.mapped virtual)) =
      allocator.updateVirtualAddresses (allocator.virtualMap slots virtual) := by
    rw [Allocator.setVirtualAddressMap, if_neg (by decide), if_neg (by simp),
      Nat.mul_div_cancel_left _ (by decide), List.map_append, List.take_left' (by simp),
      List.map_map]
    rfl
  simp only [MapQuery.answered, taken, List.map_map, Except.ok.injEq, Prod.mk.injEq, true_and,
    exists_and_left, exists_eq_left']
  exact linked.updateVirtualAddresses_mapped

end HypervisorFirmware.Alloc
