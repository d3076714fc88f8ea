import HypervisorFirmware.Alloc.Refinement

/-! # Integrity of the chain

In every state that any sequence of calls reaches, the links run through the
slots in use, once each, and end. -/

namespace HypervisorFirmware.Alloc

namespace Allocator

def inUseCount (allocator : Allocator) : Nat :=
  (Finset.univ.filter fun slot => (allocator.allocations slot).inUse = true).card

variable {allocator : Allocator}

section

variable {slots : List Slot} (linked : allocator.Linked slots)

include linked

theorem Linked.inUseCount_eq : allocator.inUseCount = slots.length := by
  have sameSlots :
      (Finset.univ.filter fun slot => (allocator.allocations slot).inUse = true) =
        slots.toFinset := by
    ext slot
    simp [linked.inUse]
  rw [inUseCount, sameSlots, List.toFinset_card_of_nodup linked.nodup]

theorem Linked.getDescriptorCount : allocator.getDescriptorCount = .ok slots.length := by
  rw [Allocator.getDescriptorCount,
    linked.chain.walk_eq_visitAll _ _ _ linked.length_lt_walkFuel, Chain.visitAll_count,
    Nat.zero_add]

/-- `get_descriptors` writes the descriptors along the chain to the front of
the buffer and leaves the rest of it alone. -/
theorem Linked.getDescriptors (out : List MemoryDescriptor) (fits : slots.length ≤ out.length) :
    allocator.getDescriptors out =
      .ok (slots.length, slots.map allocator.descriptor ++ out.drop slots.length) := by
  have walked := linked.chain.walk_eq_visitAll
    (fun slot (state : Nat × List MemoryDescriptor) =>
      (.inl (state.1 + 1, state.2.set state.1 (allocator.descriptor slot)) :
        (Nat × List MemoryDescriptor) ⊕ (Nat × List MemoryDescriptor)))
    id walkFuel linked.length_lt_walkFuel (0, out)
  rw [Chain.visitAll_fill _ _ _ _ (by omega)] at walked
  have notShort : ¬out.length < slots.length := by omega
  rw [Allocator.getDescriptors, linked.getDescriptorCount]
  simpa [notShort] using walked

theorem Linked.reportedMap : allocator.reportedMap = .ok (slots.map allocator.descriptor) := by
  rw [Allocator.reportedMap, linked.getDescriptorCount]
  simp only [Exec.ok_bind]
  rw [linked.getDescriptors _ (by simp)]
  simp

end

theorem Represents.reportedMap {map : MemoryMap} (represents : allocator.Represents map) :
    ∃ descriptors, allocator.reportedMap = .ok descriptors ∧
      descriptors.map MemoryDescriptor.toRegion = map.regions := by
  rcases represents with ⟨slots, linked, regions, _⟩
  refine ⟨_, linked.reportedMap, ?_⟩
  rw [← regions, List.map_map]
  rfl

end Allocator

def Allocator.Reports (allocator : Allocator) (Holds : List Region → Prop) : Prop :=
  ∃ descriptors, allocator.reportedMap = .ok descriptors ∧
    Holds (descriptors.map MemoryDescriptor.toRegion)

variable {allocator : Allocator} {map : MemoryMap}

theorem Allocator.Represents.reports_iff
    (represents : allocator.Represents map) (Holds : List Region → Prop) :
    allocator.Reports Holds ↔ Holds map.regions := by
  rcases represents.reportedMap with ⟨descriptors, reported, regions⟩
  simp [Reports, reported, regions]

/-- Every run returns what the same operations return on the represented map,
and reaches a state that represents the map after them. -/
theorem run_represents (represents : allocator.Represents map) (operations : List Operation) :
    ∃ final, run allocator operations = .ok (map.responses operations, final) ∧
      final.Represents (map.run operations) := by
  induction operations generalizing allocator map with
  | nil => exact ⟨allocator, rfl, represents⟩
  | cons operation rest induction =>
    rcases step_represents represents operation with ⟨next, stepped, kept⟩
    rcases induction kept with ⟨final, ran, finalRepresents⟩
    rw [run] at ran
    refine ⟨final, ?_, finalRepresents⟩
    simp [run, Machine.run, stepped, ran, MemoryMap.responses]

theorem represents_of_run {final : Allocator}
    (represents : allocator.Represents map) {operations : List Operation}
    {responses : List Response} (ran : run allocator operations = .ok (responses, final)) :
    final.Represents (map.run operations) := by
  rcases run_represents represents operations with ⟨_, ran', finalRepresents⟩
  rw [ran] at ran'
  cases ran'
  exact finalRepresents

theorem everyStep_reports_iff
    (represents : allocator.Represents map) (Meets : Operation → List Region → Prop)
    (operations : List Operation) :
    Machine.EveryStep step (fun state operation => state.Reports (Meets operation))
        allocator operations ↔
      ∀ before operation after, operations = before ++ operation :: after →
        Meets operation (map.run before).regions := by
  rw [Machine.everyStep_iff]
  constructor
  · intro every before operation after split
    rcases run_represents represents before with ⟨reached, ran, kept⟩
    exact (kept.reports_iff _).mp (every before operation after _ reached split ran)
  · intro every before operation after responses reached split ran
    exact ((represents_of_run represents ran).reports_iff _).mpr
      (every before operation after split)

/-- Chain integrity over all runs, for arbitrary arguments: following
`next_allocation` from `first_allocation` ends, repeats no slot and finds
exactly the slots in use, so the calls that walk the chain return and count
those slots. -/
theorem chain_integrity (operations : List Operation) :
    ∃ responses allocator slots,
      run Allocator.new operations = .ok (responses, allocator) ∧
      Chain allocator.next allocator.firstAllocation slots ∧
      slots.Nodup ∧
      (∀ slot, slot ∈ slots ↔ (allocator.allocations slot).inUse = true) ∧
      (∀ operation, ∃ response next, step allocator operation = .ok (response, next)) ∧
      allocator.getDescriptorCount = .ok allocator.inUseCount ∧
      allocator.inUseCount ≤ maxAllocations ∧
      ∀ out, allocator.inUseCount ≤ out.length →
        allocator.getDescriptors out =
          .ok (allocator.inUseCount,
            slots.map allocator.descriptor ++ out.drop allocator.inUseCount) := by
  rcases run_represents Allocator.new_represents operations with
    ⟨allocator, ran, represents⟩
  rcases represents with ⟨slots, linked, regions, sameKey⟩
  have counted := linked.inUseCount_eq
  refine ⟨_, allocator, slots, ran, linked.chain, linked.nodup,
    fun slot => (linked.inUse slot).symm, ?_, ?_, ?_, ?_⟩
  · intro operation
    rcases step_represents ⟨slots, linked, regions, sameKey⟩ operation with
      ⟨next, stepped, _⟩
    exact ⟨_, next, stepped⟩
  · rw [counted]
    exact linked.getDescriptorCount
  · rw [counted]
    exact linked.length_le
  · intro out fits
    rw [counted] at fits ⊢
    exact linked.getDescriptors out fits

end HypervisorFirmware.Alloc
