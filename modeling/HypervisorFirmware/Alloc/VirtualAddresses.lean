import Mathlib.Data.List.TakeWhile
import HypervisorFirmware.Alloc.ChainIntegrity

/-! # Virtual addresses

`update_virtual_addresses` writes to the first descriptor of the chain that has the
start address of an input descriptor, one input after the other, and returns at the
first input that has none. What it wrote before stays. -/

namespace HypervisorFirmware.Alloc

open Efi

namespace Allocator

def virtualStart (allocator : Allocator) (slot : Slot) : UInt64 :=
  (allocator.descriptor slot).virtualStart

def withVirtual (allocator : Allocator) (virtual : Slot → UInt64) : Allocator :=
  { allocator with
    allocations := fun slot =>
      { allocator.allocations slot with
        descriptor := { allocator.descriptor slot with virtualStart := virtual slot } } }

theorem withVirtual_self (allocator : Allocator) :
    allocator.withVirtual allocator.virtualStart = allocator := rfl

theorem modify_withVirtual (allocator : Allocator) (virtual : Slot → UInt64) (slot : Slot)
    (address : UInt64) :
    ((allocator.withVirtual virtual).modify slot fun allocation =>
      { allocation with
        descriptor := { allocation.descriptor with virtualStart := address } }) =
      allocator.withVirtual (Function.update virtual slot address) := by
  unfold modify withVirtual
  congr 1
  funext other
  by_cases equal : other = slot
  · subst equal
    simp
  · simp [equal]

theorem Linked.withVirtual {allocator : Allocator} {slots : List Slot}
    (linked : allocator.Linked slots) (virtual : Slot → UInt64) :
    (allocator.withVirtual virtual).Linked slots :=
  ⟨linked.chain, linked.nodup, linked.inUse⟩

/-! ## What is written -/

section Writes

variable (allocator : Allocator) (slots : List Slot)

def target (wanted : MemoryDescriptor) : Option Slot :=
  slots.find? fun slot => (allocator.region slot).physicalStart == wanted.physicalStart

def Known (wanted : MemoryDescriptor) : Prop :=
  ∃ slot ∈ slots, (allocator.region slot).physicalStart = wanted.physicalStart

def IsFirst (slot : Slot) : Prop :=
  slots.find? (fun other =>
    (allocator.region other).physicalStart == (allocator.region slot).physicalStart) =
      some slot

def served (descriptors : List MemoryDescriptor) : List MemoryDescriptor :=
  descriptors.takeWhile fun wanted => (allocator.target slots wanted).isSome

def lastWrite (slot : Slot) (descriptors : List MemoryDescriptor) : Option MemoryDescriptor :=
  descriptors.reverse.find? fun wanted => allocator.target slots wanted == some slot

end Writes

def lastNaming (start : UInt64) (descriptors : List MemoryDescriptor) :
    Option MemoryDescriptor :=
  descriptors.reverse.find? fun wanted => wanted.physicalStart == start

variable {allocator : Allocator} {slots : List Slot}

theorem isSome_target_iff (wanted : MemoryDescriptor) :
    (allocator.target slots wanted).isSome = true ↔ allocator.Known slots wanted := by
  simp [target, Known]

variable {slot : Slot}

theorem target_eq_some_iff {wanted : MemoryDescriptor} :
    allocator.target slots wanted = some slot ↔
      allocator.IsFirst slots slot ∧
        wanted.physicalStart = (allocator.region slot).physicalStart := by
  constructor
  · intro found
    have matched : (allocator.region slot).physicalStart = wanted.physicalStart := by
      simpa using List.find?_some found
    refine ⟨?_, matched.symm⟩
    rw [IsFirst, matched]
    exact found
  · rintro ⟨first, equal⟩
    rw [target, equal]
    exact first

theorem lastWrite_cons (slot : Slot) (wanted : MemoryDescriptor) (rest : List MemoryDescriptor) :
    allocator.lastWrite slots slot (wanted :: rest) =
      (allocator.lastWrite slots slot rest).or
        (if allocator.target slots wanted = some slot then some wanted else none) := by
  rw [lastWrite, List.reverse_cons, List.find?_append, List.find?_singleton]
  simp [lastWrite]

theorem lastWrite_of_isFirst (first : allocator.IsFirst slots slot)
    (descriptors : List MemoryDescriptor) :
    allocator.lastWrite slots slot descriptors =
      lastNaming (allocator.region slot).physicalStart descriptors := by
  unfold lastWrite lastNaming
  congr 1
  funext wanted
  rw [Bool.eq_iff_iff, beq_iff_eq, beq_iff_eq, target_eq_some_iff]
  simp [first]

theorem lastWrite_of_not_isFirst (later : ¬allocator.IsFirst slots slot)
    (descriptors : List MemoryDescriptor) :
    allocator.lastWrite slots slot descriptors = none := by
  rw [lastWrite, List.find?_eq_none]
  intro wanted _ found
  rw [beq_iff_eq, target_eq_some_iff] at found
  exact later found.1

/-- The outcome of `update_virtual_addresses`. The induction is on the inputs, with the
virtual addresses that were written so far generalised. -/
theorem Linked.updateVirtualAddresses_eq (linked : allocator.Linked slots)
    (descriptors : List MemoryDescriptor) (virtual : Slot → UInt64) :
    (allocator.withVirtual virtual).updateVirtualAddresses descriptors =
      .ok (if ∀ wanted ∈ descriptors, (allocator.target slots wanted).isSome = true
          then .success else .notFound,
        allocator.withVirtual fun slot =>
          ((allocator.lastWrite slots slot (allocator.served slots descriptors)).map
            MemoryDescriptor.virtualStart).getD (virtual slot)) := by
  induction descriptors generalizing virtual with
  | nil => simp [updateVirtualAddresses, served, lastWrite]
  | cons wanted rest induction =>
    have searched := (linked.withVirtual virtual).walk_find? fun slot =>
      ((allocator.withVirtual virtual).region slot).physicalStart == wanted.physicalStart
    change _ = Except.ok (allocator.target slots wanted) at searched
    rw [updateVirtualAddresses, searched]
    cases found : allocator.target slots wanted with
    | none => simp [served, lastWrite, found]
    | some slot =>
      simp only [Exec.ok_bind]
      rw [modify_withVirtual, induction]
      have servedCons : allocator.served slots (wanted :: rest) =
          wanted :: allocator.served slots rest := by
        simp [served, found]
      have written : (fun other =>
          ((allocator.lastWrite slots other (allocator.served slots rest)).map
            MemoryDescriptor.virtualStart).getD
              (Function.update virtual slot wanted.virtualStart other)) =
          fun other => ((allocator.lastWrite slots other
            (allocator.served slots (wanted :: rest))).map
              MemoryDescriptor.virtualStart).getD (virtual other) := by
        funext other
        rw [servedCons, lastWrite_cons, found]
        cases allocator.lastWrite slots other (allocator.served slots rest) with
        | some last => rfl
        | none =>
          by_cases equal : slot = other
          · subst equal
            simp
          · simp [equal, Ne.symm equal]
      rw [written]
      simp [found]

/-! ## All or nothing -/

/-- `SUCCESS` is returned exactly if every input names a descriptor of the chain; then
each descriptor that is named has the virtual address of the last input that names it,
and nothing else has changed. Otherwise no virtual address has changed. -/
structure UpdatesAllOrNothing (allocator : Allocator) (slots : List Slot)
    (descriptors : List MemoryDescriptor) (status : Status) (next : Allocator) : Prop where
  outcome : status = .success ∨ status = .notFound
  success_iff : status = .success ↔ ∀ wanted ∈ descriptors, allocator.Known slots wanted
  updated : status = .success → next = allocator.withVirtual fun slot =>
    if slot ∈ slots then
      ((lastNaming (allocator.region slot).physicalStart descriptors).map
        MemoryDescriptor.virtualStart).getD (allocator.virtualStart slot)
    else
      allocator.virtualStart slot
  kept : status = .notFound → ∀ slot, next.virtualStart slot = allocator.virtualStart slot

/-- If every input names a descriptor, then one that is hidden behind another with the
same start address already has the virtual address it is given. Otherwise all that is
written before the first unknown input is there already. -/
structure WritesSettled (allocator : Allocator) (slots : List Slot)
    (descriptors : List MemoryDescriptor) : Prop where
  hidden : (∀ wanted ∈ descriptors, allocator.Known slots wanted) →
    ∀ slot ∈ slots, ¬allocator.IsFirst slots slot →
      ∀ wanted, lastNaming (allocator.region slot).physicalStart descriptors = some wanted →
        wanted.virtualStart = allocator.virtualStart slot
  unknown : ¬(∀ wanted ∈ descriptors, allocator.Known slots wanted) →
    ∀ slot, allocator.IsFirst slots slot →
      ∀ wanted, lastNaming (allocator.region slot).physicalStart
          (allocator.served slots descriptors) = some wanted →
        wanted.virtualStart = allocator.virtualStart slot

theorem map_getD_eq_iff (written : Option MemoryDescriptor) (address : UInt64) :
    (written.map MemoryDescriptor.virtualStart).getD address = address ↔
      ∀ wanted, written = some wanted → wanted.virtualStart = address := by
  cases written <;> simp

theorem IsFirst.mem (first : allocator.IsFirst slots slot) : slot ∈ slots :=
  List.mem_of_find?_eq_some first

theorem served_of_known {descriptors : List MemoryDescriptor}
    (known : ∀ wanted ∈ descriptors, allocator.Known slots wanted) :
    allocator.served slots descriptors = descriptors := by
  rw [served, List.takeWhile_eq_self_iff]
  intro wanted member
  exact (isSome_target_iff wanted).mpr (known wanted member)

theorem written_eq_named_iff (slot : Slot) (descriptors : List MemoryDescriptor) :
    ((allocator.lastWrite slots slot descriptors).map MemoryDescriptor.virtualStart).getD
        (allocator.virtualStart slot) =
      (if slot ∈ slots then
        ((lastNaming (allocator.region slot).physicalStart descriptors).map
          MemoryDescriptor.virtualStart).getD (allocator.virtualStart slot)
      else allocator.virtualStart slot) ↔
    (slot ∈ slots → ¬allocator.IsFirst slots slot →
      ∀ wanted, lastNaming (allocator.region slot).physicalStart descriptors = some wanted →
        wanted.virtualStart = allocator.virtualStart slot) := by
  by_cases first : allocator.IsFirst slots slot
  · simp [lastWrite_of_isFirst first, first, first.mem]
  · rw [lastWrite_of_not_isFirst first]
    by_cases member : slot ∈ slots
    · simp only [member, first, if_true, not_false_eq_true, forall_const, ← map_getD_eq_iff]
      exact eq_comm
    · simp [member]

theorem written_eq_old_iff (slot : Slot) (descriptors : List MemoryDescriptor) :
    ((allocator.lastWrite slots slot descriptors).map MemoryDescriptor.virtualStart).getD
        (allocator.virtualStart slot) = allocator.virtualStart slot ↔
    (allocator.IsFirst slots slot →
      ∀ wanted, lastNaming (allocator.region slot).physicalStart descriptors = some wanted →
        wanted.virtualStart = allocator.virtualStart slot) := by
  by_cases first : allocator.IsFirst slots slot
  · rw [lastWrite_of_isFirst first, map_getD_eq_iff]
    simp [first]
  · rw [lastWrite_of_not_isFirst first]
    simp [first]

/-- All-or-nothing holds of an update exactly if what it leaves out or leaves behind is
there already. -/
theorem updates_all_or_nothing_iff (linked : allocator.Linked slots)
    (descriptors : List MemoryDescriptor) :
    (∃ status next, allocator.updateVirtualAddresses descriptors = .ok (status, next) ∧
      UpdatesAllOrNothing allocator slots descriptors status next) ↔
      WritesSettled allocator slots descriptors := by
  have different : Status.notFound ≠ .success := by decide
  have returned := linked.updateVirtualAddresses_eq descriptors allocator.virtualStart
  rw [withVirtual_self] at returned
  by_cases known : ∀ wanted ∈ descriptors, allocator.Known slots wanted
  · have allFound : ∀ wanted ∈ descriptors, (allocator.target slots wanted).isSome = true :=
      fun wanted member => (isSome_target_iff wanted).mpr (known wanted member)
    rw [if_pos allFound, served_of_known known] at returned
    constructor
    · rintro ⟨status, next, returned', allOrNothing⟩
      rw [returned] at returned'
      cases returned'
      constructor
      · intro _ slot member
        apply (written_eq_named_iff slot descriptors).mp _ member
        exact congrArg (virtualStart · slot) (allOrNothing.updated rfl)
      · intro unknown
        exact absurd known unknown
    · intro settled
      refine ⟨_, _, returned, .inl rfl, iff_of_true rfl known, ?_, ?_⟩
      · intro _
        congr 1
        funext slot
        exact (written_eq_named_iff slot descriptors).mpr (settled.hidden known slot)
      · intro impossible
        exact absurd impossible.symm different
  · have notAll : ¬∀ wanted ∈ descriptors, (allocator.target slots wanted).isSome = true :=
      fun allFound => known fun wanted member =>
        (isSome_target_iff wanted).mp (allFound wanted member)
    rw [if_neg notAll] at returned
    constructor
    · rintro ⟨status, next, returned', allOrNothing⟩
      rw [returned] at returned'
      cases returned'
      constructor
      · intro all
        exact absurd all known
      · intro _ slot
        exact (written_eq_old_iff slot _).mp (allOrNothing.kept rfl slot)
    · intro settled
      refine ⟨_, _, returned, .inr rfl, iff_of_false different known, ?_, ?_⟩
      · intro impossible
        exact absurd impossible different
      · intro _ slot
        exact (written_eq_old_iff slot _).mpr (settled.unknown known slot)

theorem maxAllocations_pos : 0 < maxAllocations := by decide

def oneRegion : Allocator :=
  let first : Slot := ⟨0, maxAllocations_pos⟩
  { new.modify first (fill .conventionalMemory 0x10 0x200000 memoryWb) with
    key := 1
    firstAllocation := some first }

theorem oneRegion_linked : oneRegion.Linked [0] := by
  constructor
  · exact .cons .nil
  · simp
  · intro slot
    by_cases equal : slot = 0
    · subst equal
      simp [oneRegion, fill]
    · have untouched := modify_allocations_other new
        (fill .conventionalMemory 0x10 0x200000 memoryWb) equal
      have unused : (new.allocations slot).inUse = false := rfl
      simp [oneRegion, untouched, unused, equal]

def sixteenPagesAt (address : UInt64) : MemoryDescriptor :=
  ⟨⟨7, address, 0x10, memoryWb⟩, 0xf0000000 + address⟩

theorem updates_all_or_nothing_iff_one_region :
    oneRegion.Linked [0] ∧
      ((∃ status next,
        oneRegion.updateVirtualAddresses [sixteenPagesAt 0x200000] = .ok (status, next) ∧
        UpdatesAllOrNothing oneRegion [0] [sixteenPagesAt 0x200000] status next) ↔
        WritesSettled oneRegion [0] [sixteenPagesAt 0x200000]) :=
  ⟨oneRegion_linked, updates_all_or_nothing_iff oneRegion_linked _⟩

/-- An unknown descriptor behind a known one: the call fails, but the first virtual
address has been written. -/
theorem not_updates_all_or_nothing_unknown :
    run new [.addInitialAllocation .conventionalMemory 0x10 0x200000 memoryWb] =
        .ok ([⟨.success, 0⟩], oneRegion) ∧
      ¬∃ status next,
        oneRegion.updateVirtualAddresses [sixteenPagesAt 0x200000, sixteenPagesAt 0x300000] =
          .ok (status, next) ∧
        UpdatesAllOrNothing oneRegion [0] [sixteenPagesAt 0x200000, sixteenPagesAt 0x300000]
          status next := by
  refine ⟨rfl, ?_⟩
  rintro ⟨status, next, returned, allOrNothing⟩
  have computed := oneRegion_linked.updateVirtualAddresses_eq
    [sixteenPagesAt 0x200000, sixteenPagesAt 0x300000] oneRegion.virtualStart
  rw [withVirtual_self, returned] at computed
  cases computed
  have kept := allOrNothing.kept (by decide) 0
  exact absurd kept (by decide)

end Allocator

end HypervisorFirmware.Alloc
