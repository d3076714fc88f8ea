import HypervisorFirmware.Alloc.ByteTypes
import HypervisorFirmware.Alloc.MapKey

/-! # The normal form of merging

After `merge_free_memory` no free descriptor is followed by one that starts where it
ends, however long the runs of free descriptors were, and there is nothing left to do for
a second call. -/

namespace HypervisorFirmware.Alloc

open Efi

def Region.Contiguous (current next : Region) : Prop :=
  current.type = MemoryType.conventionalMemory.toUInt32 ∧
    next.type = MemoryType.conventionalMemory.toUInt32 ∧ next.bottom = current.top

def NoneContiguous (regions : List Region) : Prop :=
  regions.IsChain fun current next => ¬ current.Contiguous next

/-! ## Regions -/

namespace MemoryMap

theorem mergeFrom_head (current : Region) (rest : List Region) :
    ∃ first later, mergeFrom current rest = first :: later ∧
      first.physicalStart = current.physicalStart ∧ first.type = current.type := by
  induction rest generalizing current with
  | nil => exact ⟨current, [], rfl, rfl, rfl⟩
  | cons next rest induction =>
    rw [mergeFrom]
    split
    · exact induction (current.join next)
    · exact ⟨current, mergeFrom next rest, rfl, rfl, rfl⟩

theorem separated_mergeFrom (current : Region) (rest : List Region) :
    Separated (mergeFrom current rest) := by
  induction rest generalizing current with
  | nil => exact .singleton current
  | cons next rest induction =>
    rw [mergeFrom]
    split
    · exact induction (current.join next)
    · rename_i apart
      rcases mergeFrom_head next rest with ⟨first, later, merged, start, type⟩
      have laterChain := induction next
      rw [merged] at laterChain ⊢
      refine .cons_cons ?_ laterChain
      rw [Region.absorbs_congr_right type start]
      exact Bool.not_eq_true _ ▸ apart

theorem separated_merge (regions : List Region) : Separated (merge regions) := by
  cases regions with
  | nil => exact .nil
  | cons first rest => exact separated_mergeFrom first rest

end MemoryMap

theorem LaidBelow.noneContiguous {bound : Nat} {regions : List Region}
    (laid : LaidBelow bound regions) (apart : MemoryMap.Separated regions) :
    NoneContiguous regions := by
  induction apart with
  | nil => exact .nil
  | singleton region => exact .singleton region
  | @cons_cons current next rest separate _ induction =>
    refine .cons_cons ?_ (induction laid.tail)
    rintro ⟨currentType, nextType, adjacent⟩
    have start : next.physicalStart = current.physicalStart + current.numberOfPages * pageSize := by
      apply UInt64.toNat_inj.mp
      rw [UInt64.mul_comm, Region.end_toNat laid.top_lt]
      exact adjacent
    simp [Region.absorbs, Region.isConventional, currentType, nextType, start] at separate

/-! ## The table -/

namespace Allocator

variable {allocator : Allocator}

/-- With nothing to join, the merge loop walks to the end of the chain and leaves the
table alone. The induction is on the slots still ahead of it. -/
theorem Linked.mergeLoop_of_apart {before after : List Slot}
    {current : Slot} (linked : allocator.Linked (before ++ current :: after))
    (apart : MemoryMap.Separated ((current :: after).map allocator.region))
    {fuel : Nat} (enough : after.length < fuel) :
    Loop.run mergeStep fuel (allocator, some current) = .ok allocator := by
  induction after generalizing before current fuel with
  | nil =>
    obtain ⟨fuel, rfl⟩ := Nat.exists_eq_add_of_lt enough
    have ends : allocator.next current = none := linked.chain.next_eq_head?
    simp [Loop.run, mergeStep, ends]
  | cons next after induction =>
    obtain ⟨fuel, rfl⟩ := Nat.exists_eq_add_of_lt enough
    have follows : allocator.next current = some next := linked.chain.next_eq_head?
    rw [List.map_cons, List.map_cons, MemoryMap.Separated, List.isChain_cons_cons] at apart
    have moved : allocator.Linked ((before ++ [current]) ++ next :: after) := by
      simpa using linked
    have steps : mergeStep (allocator, some current) = .ok (.inl (allocator, some next)) := by
      simp [mergeStep, follows, apart.1]
    rw [Loop.run, steps]
    exact induction moved apart.2 (by simp only [List.length_cons]; omega)

theorem Linked.mergeFreeMemory_of_apart {slots : List Slot} (linked : allocator.Linked slots)
    (apart : MemoryMap.Separated (slots.map allocator.region)) :
    allocator.mergeFreeMemory = .ok allocator := by
  have starts := linked.chain.start_eq_head?
  rw [Allocator.mergeFreeMemory, starts]
  cases slots with
  | nil => rfl
  | cons first rest =>
    have fromFirst : allocator.Linked ([] ++ first :: rest) := linked
    exact fromFirst.mergeLoop_of_apart apart (Nat.lt_of_succ_lt linked.length_lt_walkFuel)

theorem mergeFreeMemory_normal {allocator : Allocator} {slots : List Slot}
    (linked : allocator.Linked slots) (laid : LaidBelow (2 ^ 64 + 1) (slots.map allocator.region)) :
    ∃ merged kept, allocator.mergeFreeMemory = .ok merged ∧ merged.Linked kept ∧
      (∀ byte, typeAt (kept.map merged.region) byte =
        typeAt (slots.map allocator.region) byte) ∧
      NoneContiguous (kept.map merged.region) ∧
      merged.mergeFreeMemory = .ok merged := by
  rcases linked.mergeFreeMemory with ⟨merged, kept, ran, mergedLinked, _, regions⟩
  rcases laid.merge (Nat.le_refl _) with ⟨mergedLaid, types⟩
  have apart := MemoryMap.separated_merge (slots.map allocator.region)
  rw [← regions] at mergedLaid types apart
  exact ⟨merged, kept, ran, mergedLinked, types, mergedLaid.noneContiguous apart,
    mergedLinked.mergeFreeMemory_of_apart apart⟩

def freeRow : List Region :=
  [⟨7, 0xffffffffffff0000, 4, memoryWb⟩, ⟨7, 0xffffffffffff4000, 4, memoryWb⟩,
    ⟨7, 0xffffffffffff8000, 8, memoryWb⟩]

theorem mergeFreeMemory_normal_freeRow :
    ∃ (allocator merged : Allocator) (slots kept : List Slot),
      slots.map allocator.region = freeRow ∧
      allocator.mergeFreeMemory = .ok merged ∧ NoneContiguous (kept.map merged.region) ∧
      typeAt (kept.map merged.region) 0xffffffffffff4000 = some 7 ∧
      merged.mergeFreeMemory = .ok merged := by
  rcases run_represents new_represents
    [.addInitialAllocation .conventionalMemory 4 0xffffffffffff0000 memoryWb,
      .addInitialAllocation .conventionalMemory 4 0xffffffffffff4000 memoryWb,
      .addInitialAllocation .conventionalMemory 8 0xffffffffffff8000 memoryWb] with
    ⟨allocator, _, slots, linked, regions, _⟩
  have row : slots.map allocator.region = freeRow := regions
  have laid : LaidBelow (2 ^ 64 + 1) (slots.map allocator.region) := by
    rw [row]
    constructor
    · rw [Span.Ascending, List.pairwise_map]
      simp [freeRow, Region.top, Region.bottom]
    · simp [freeRow, Region.top, Region.bottom]
  rcases mergeFreeMemory_normal linked laid with
    ⟨merged, kept, ran, _, types, normal, again⟩
  refine ⟨allocator, merged, slots, kept, row, ran, normal, ?_, again⟩
  rw [types, row]
  decide

end Allocator

end HypervisorFirmware.Alloc
