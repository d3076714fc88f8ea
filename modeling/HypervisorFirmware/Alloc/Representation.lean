import Mathlib.Data.Fintype.Card
import Mathlib.Data.Fintype.Fin
import HypervisorFirmware.Alloc.MemoryMap

/-! # The table represents the memory map

The chain through the table stays intact under every operation, and what the
operations do to the table is what `MemoryMap.step` does to the list of regions
along the chain. -/

namespace HypervisorFirmware.Alloc

open Efi

namespace Allocator

/-- The chain visits exactly these slots, none of them twice, and they are the
slots in use. -/
structure Linked (allocator : Allocator) (slots : List Slot) : Prop where
  chain : Chain allocator.next allocator.firstAllocation slots
  nodup : slots.Nodup
  inUse : ∀ slot, (allocator.allocations slot).inUse = true ↔ slot ∈ slots

/-! ## Updates of one slot -/

@[simp] theorem modify_allocations_same (allocator : Allocator) (slot : Slot)
    (change : Allocation → Allocation) :
    (allocator.modify slot change).allocations slot = change (allocator.allocations slot) := by
  simp [modify]

variable {slot : Slot} {allocator : Allocator} {remaining : Nat} {wanted : Slot → Bool}
   {before : List Slot}

theorem modify_allocations_other (allocator : Allocator) {other : Slot}
    (change : Allocation → Allocation) (different : other ≠ slot) :
    (allocator.modify slot change).allocations other = allocator.allocations other := by
  simp [modify, different]

@[simp] theorem modify_key (allocator : Allocator) (slot : Slot)
    (change : Allocation → Allocation) :
    (allocator.modify slot change).key = allocator.key := rfl

@[simp] theorem modify_firstAllocation (allocator : Allocator) (slot : Slot)
    (change : Allocation → Allocation) :
    (allocator.modify slot change).firstAllocation = allocator.firstAllocation := rfl

section

variable {slots : List Slot} (linked : allocator.Linked slots)

include linked

theorem Linked.modify (slot : Slot) (change : Allocation → Allocation)
    (keepsNext : ∀ allocation, (change allocation).nextAllocation = allocation.nextAllocation)
    (keepsInUse : ∀ allocation, (change allocation).inUse = allocation.inUse) :
    (allocator.modify slot change).Linked slots := by
  constructor
  · apply linked.chain.congr
    intro other _
    by_cases equal : other = slot
    · subst equal
      simp [next, keepsNext]
    · simp [next, modify_allocations_other _ _ equal]
  · exact linked.nodup
  · intro other
    by_cases equal : other = slot
    · subst equal
      simp [keepsInUse, linked.inUse]
    · simp [modify_allocations_other _ _ equal, linked.inUse]

theorem Linked.withKey (key : UInt64) : ({ allocator with key } : Allocator).Linked slots :=
  ⟨linked.chain, linked.nodup, linked.inUse⟩

theorem Linked.length_le : slots.length ≤ maxAllocations := by
  simpa using linked.nodup.length_le_card

theorem Linked.length_lt_walkFuel : slots.length < walkFuel :=
  Nat.lt_succ_of_le linked.length_le

end

/-! ## Free slots -/

theorem findSlot_some {bounded : remaining ≤ maxAllocations}
    (found : findSlot wanted remaining bounded = some slot) : wanted slot = true := by
  induction remaining with
  | zero => simp [findSlot] at found
  | succ remaining induction =>
    simp only [findSlot] at found
    split at found
    · rename_i matched
      cases found
      exact matched
    · exact induction found

theorem findSlot_none {bounded : remaining ≤ maxAllocations}
    (missing : findSlot wanted remaining bounded = none) (slot : Slot)
    (inRange : maxAllocations - remaining ≤ slot.val) : wanted slot = false := by
  induction remaining with
  | zero =>
    omega
  | succ remaining induction =>
    simp only [findSlot] at missing
    split at missing
    · cases missing
    · rename_i failed
      by_cases here : slot.val = maxAllocations - (remaining + 1)
      · have equal : slot = ⟨maxAllocations - (remaining + 1), by omega⟩ := Fin.ext here
        rw [equal]
        simpa using failed
      · exact induction missing (by omega)

theorem Linked.notMem_of_findFreeAllocation {slots : List Slot} (linked : allocator.Linked slots)
    (found : allocator.findFreeAllocation = some slot) : slot ∉ slots := by
  have free := findSlot_some found
  intro member
  simp [(linked.inUse slot).mpr member] at free

theorem Linked.findFreeAllocation_eq_none_iff
    {slots : List Slot} (linked : allocator.Linked slots) :
    allocator.findFreeAllocation = none ↔ slots.length = maxAllocations := by
  constructor
  · intro missing
    have everySlot : ∀ slot : Slot, slot ∈ slots.toFinset := by
      intro slot
      have used := findSlot_none missing slot (by simp)
      rw [List.mem_toFinset, ← linked.inUse]
      simpa using used
    have full := Finset.eq_univ_of_forall everySlot
    rw [← List.toFinset_card_of_nodup linked.nodup, full]
    simp
  · intro full
    cases found : allocator.findFreeAllocation with
    | none => rfl
    | some slot =>
      have notMember := linked.notMem_of_findFreeAllocation found
      have longer : (slot :: slots).length ≤ maxAllocations := by
        simpa using (List.nodup_cons.mpr ⟨notMember, linked.nodup⟩).length_le_card
      simp only [List.length_cons] at longer
      omega

/-! ## Regions along the chain -/

@[simp] theorem updateRegion_region_same (allocator : Allocator) (slot : Slot)
    (change : Region → Region) :
    (allocator.updateRegion slot change).region slot = change (allocator.region slot) := by
  simp [region, descriptor, updateRegion]

theorem modify_region_other (allocator : Allocator) {other : Slot}
    (change : Allocation → Allocation) (different : other ≠ slot) :
    (allocator.modify slot change).region other = allocator.region other := by
  simp [region, descriptor, modify_allocations_other _ _ different]

@[simp] theorem updateRegion_key (allocator : Allocator) (slot : Slot) (change : Region → Region) :
    (allocator.updateRegion slot change).key = allocator.key := rfl

theorem Linked.updateRegion {slots : List Slot}
    (linked : allocator.Linked slots) (slot : Slot) (change : Region → Region) :
    (allocator.updateRegion slot change).Linked slots :=
  linked.modify slot _ (fun _ => rfl) (fun _ => rfl)

theorem map_region_congr {changed : Allocator} {slots : List Slot}
    (same : ∀ slot ∈ slots, changed.allocations slot = allocator.allocations slot) :
    slots.map changed.region = slots.map allocator.region := by
  apply List.map_congr_left
  intro slot member
  simp [region, descriptor, same slot member]

theorem Linked.notMem_others {after : List Slot}
    (linked : allocator.Linked (before ++ slot :: after)) :
    slot ∉ before ++ after :=
  (List.nodup_cons.mp (List.nodup_middle.mp linked.nodup)).1

theorem Linked.map_updateRegion {after : List Slot}
    (linked : allocator.Linked (before ++ slot :: after))
    (change : Region → Region) :
    (before ++ slot :: after).map (allocator.updateRegion slot change).region =
      before.map allocator.region ++
        change (allocator.region slot) :: after.map allocator.region := by
  have others : (before ++ after).map (allocator.updateRegion slot change).region =
      (before ++ after).map allocator.region := by
    apply map_region_congr
    intro other member
    exact modify_allocations_other _ _ (ne_of_mem_of_not_mem member linked.notMem_others)
  rw [List.map_append, List.map_append] at others
  rcases List.append_inj others (by simp) with ⟨beforeSame, afterSame⟩
  simp [beforeSame, afterSame]

/-! ## Splitting and joining -/

section Split

variable {allocator : Allocator} {orig new : Slot}

section

variable (found : allocator.findFreeAllocation = some new) (pages : UInt64)

include found

theorem splitAllocation_other {other : Slot} (notOrig : other ≠ orig) (notNew : other ≠ new) :
    (allocator.splitAllocation orig pages).2.allocations other = allocator.allocations other := by
  simp only [Allocator.splitAllocation, found]
  rw [modify_allocations_other _ _ notOrig, modify_allocations_other _ _ notNew]

theorem splitAllocation_orig (different : orig ≠ new) :
    (allocator.splitAllocation orig pages).2.allocations orig =
      { allocator.allocations orig with
        nextAllocation := some new
        descriptor :=
          { (allocator.allocations orig).descriptor with numberOfPages := pages } } := by
  simp only [Allocator.splitAllocation, found]
  rw [modify_allocations_same, modify_allocations_other _ _ different]

theorem splitAllocation_new (different : orig ≠ new) :
    (allocator.splitAllocation orig pages).2.allocations new =
      { inUse := true
        nextAllocation := allocator.next orig
        descriptor :=
          { toRegion := (allocator.region orig).dropPages pages
            virtualStart := (allocator.descriptor new).virtualStart } } := by
  simp only [Allocator.splitAllocation, found]
  rw [modify_allocations_other _ _ (Ne.symm different), modify_allocations_same]
  rfl

end

variable {before after : List Slot} (linked : allocator.Linked (before ++ orig :: after))
  (found : allocator.findFreeAllocation = some new) (pages : UInt64)

include linked found

theorem Linked.splitAllocation_linked :
    (allocator.splitAllocation orig pages).2.Linked (before ++ orig :: new :: after) := by
  have notMember := linked.notMem_of_findFreeAllocation found
  have different : orig ≠ new := ne_of_mem_of_not_mem (by simp) notMember
  have sameStart : (allocator.splitAllocation orig pages).2.firstAllocation =
      allocator.firstAllocation := by
    simp [Allocator.splitAllocation, found]
  constructor
  · rw [sameStart]
    apply linked.chain.insertAfter linked.nodup notMember
    · simp [next, splitAllocation_orig found pages different]
    · simp [next, splitAllocation_new found pages different]
    · intro other notOrig notNew
      simp [next, splitAllocation_other found pages notOrig notNew]
  · have reordered : (before ++ orig :: new :: after).Perm (new :: (before ++ orig :: after)) := by
      have moved : (before ++ [orig] ++ new :: after).Perm
          (new :: (before ++ [orig] ++ after)) := List.perm_middle
      simpa using moved
    rw [reordered.nodup_iff]
    exact List.nodup_cons.mpr ⟨notMember, linked.nodup⟩
  · intro slot
    by_cases isOrig : slot = orig
    · subst isOrig
      have used := (linked.inUse slot).mpr (by simp)
      simp [splitAllocation_orig found pages different, used]
    · by_cases isNew : slot = new
      · subst isNew
        simp [splitAllocation_new found pages different]
      · rw [splitAllocation_other found pages isOrig isNew, linked.inUse]
        simp [isOrig, isNew]

theorem Linked.splitAllocation :
    ∃ split, allocator.splitAllocation orig pages = (some new, split) ∧
      split.Linked (before ++ orig :: new :: after) ∧ split.key = allocator.key ∧
      split.region orig = (allocator.region orig).firstPages pages ∧
      split.region new = (allocator.region orig).dropPages pages ∧
      before.map split.region = before.map allocator.region ∧
      after.map split.region = after.map allocator.region := by
  have notMember := linked.notMem_of_findFreeAllocation found
  have different : orig ≠ new := ne_of_mem_of_not_mem (by simp) notMember
  have elsewhere : ∀ kept ∈ before ++ after,
      (allocator.splitAllocation orig pages).2.allocations kept = allocator.allocations kept := by
    intro kept member
    have onChain : kept ∈ before ++ orig :: after := by
      rw [List.mem_append] at member ⊢
      exact member.imp_right (List.mem_cons_of_mem _)
    exact splitAllocation_other found pages
      (ne_of_mem_of_not_mem member linked.notMem_others)
      (ne_of_mem_of_not_mem onChain notMember)
  refine ⟨(allocator.splitAllocation orig pages).2, ?_,
    linked.splitAllocation_linked found pages, ?_, ?_, ?_, ?_, ?_⟩
  · simp [Allocator.splitAllocation, found]
  · simp [Allocator.splitAllocation, found]
  · simp [region, descriptor, splitAllocation_orig found pages different, Region.firstPages]
  · simp [region, descriptor, splitAllocation_new found pages different]
  · exact map_region_congr fun kept member =>
      elsewhere kept (List.mem_append_left _ member)
  · exact map_region_congr fun kept member =>
      elsewhere kept (List.mem_append_right _ member)

end Split

section Absorb

variable {allocator : Allocator} {current next : Slot}

theorem absorb_other {other : Slot} (notCurrent : other ≠ current) (notNext : other ≠ next) :
    (allocator.absorb current next).allocations other = allocator.allocations other := by
  simp only [Allocator.absorb]
  rw [modify_allocations_other _ _ notNext, modify_allocations_other _ _ notCurrent]

theorem absorb_current (different : current ≠ next) :
    (allocator.absorb current next).allocations current =
      { allocator.allocations current with
        nextAllocation := allocator.next next
        descriptor :=
          { toRegion := (allocator.region current).join (allocator.region next)
            virtualStart := (allocator.descriptor current).virtualStart } } := by
  simp only [Allocator.absorb]
  rw [modify_allocations_other _ _ different, modify_allocations_same]
  rfl

theorem absorb_next (different : current ≠ next) :
    (allocator.absorb current next).allocations next =
      { allocator.allocations next with inUse := false } := by
  simp only [Allocator.absorb]
  rw [modify_allocations_same, modify_allocations_other _ _ (Ne.symm different)]

variable {before after : List Slot} (linked : allocator.Linked (before ++ current :: next :: after))

include linked

theorem Linked.absorb_linked (different : current ≠ next)
    (absent : next ∉ before ++ current :: after) :
    (allocator.absorb current next).Linked (before ++ current :: after) := by
  constructor
  · apply linked.chain.removeAfter linked.nodup
    · simp [Allocator.next, absorb_current different]
    · intro other notCurrent
      by_cases isNext : other = next
      · subst isNext
        simp [Allocator.next, absorb_next different]
      · simp [Allocator.next, absorb_other notCurrent isNext]
  · have shorter : (before ++ current :: after).Sublist
        (before ++ current :: next :: after) :=
      (List.Sublist.refl before).append ((List.sublist_cons_self next after).cons_cons current)
    exact List.Nodup.sublist shorter linked.nodup
  · intro slot
    by_cases isCurrent : slot = current
    · subst isCurrent
      have used := (linked.inUse slot).mpr (by simp)
      simp [absorb_current different, used]
    · by_cases isNext : slot = next
      · subst isNext
        simp [absorb_next different, absent]
      · rw [absorb_other isCurrent isNext, linked.inUse]
        simp [isCurrent, isNext]

theorem Linked.absorb :
    (allocator.absorb current next).Linked (before ++ current :: after) ∧
      (allocator.absorb current next).region current =
        (allocator.region current).join (allocator.region next) ∧
      before.map (allocator.absorb current next).region = before.map allocator.region ∧
      after.map (allocator.absorb current next).region = after.map allocator.region := by
  have currentAbsent := linked.notMem_others
  have nextAbsent : next ∉ before ++ current :: after := by
    have regrouped : allocator.Linked ((before ++ [current]) ++ next :: after) := by
      simpa using linked
    simpa using regrouped.notMem_others
  have different : current ≠ next := ne_of_mem_of_not_mem (by simp) nextAbsent
  have elsewhere : ∀ kept ∈ before ++ after,
      (allocator.absorb current next).allocations kept = allocator.allocations kept := by
    intro kept member
    rw [List.mem_append] at member
    apply absorb_other
    · apply ne_of_mem_of_not_mem _ currentAbsent
      exact List.mem_append.mpr (member.imp_right (List.mem_cons_of_mem _))
    · apply ne_of_mem_of_not_mem _ nextAbsent
      exact List.mem_append.mpr (member.imp_right (List.mem_cons_of_mem _))
  refine ⟨linked.absorb_linked different nextAbsent, ?_, ?_, ?_⟩
  · simp [region, descriptor, absorb_current different]
  · exact map_region_congr fun kept member =>
      elsewhere kept (List.mem_append_left _ member)
  · exact map_region_congr fun kept member =>
      elsewhere kept (List.mem_append_right _ member)

end Absorb

/-- The merge loop, started anywhere on the chain, merges the regions from
there on. The induction is on the slots still ahead of it: an iteration either
absorbs the next one or steps over to it. -/
theorem Linked.mergeLoop {after : List Slot}
    {current : Slot} (linked : allocator.Linked (before ++ current :: after))
    {fuel : Nat} (enough : after.length < fuel) :
    ∃ merged kept, Loop.run mergeStep fuel (allocator, some current) = .ok merged ∧
      merged.Linked (before ++ kept) ∧ merged.key = allocator.key ∧
      (before ++ kept).map merged.region = before.map allocator.region ++
        MemoryMap.mergeFrom (allocator.region current) (after.map allocator.region) := by
  induction after generalizing allocator before current fuel with
  | nil =>
    cases fuel with
    | zero => simp at enough
    | succ fuel =>
      have ends : allocator.next current = none := linked.chain.next_eq_head?
      refine ⟨allocator, [current], ?_, linked, rfl, ?_⟩
      · simp [Loop.run, mergeStep, ends]
      · simp [MemoryMap.mergeFrom]
  | cons next after induction =>
    cases fuel with
    | zero => simp at enough
    | succ fuel =>
      have follows : allocator.next current = some next := linked.chain.next_eq_head?
      by_cases absorbs : (allocator.region current).absorbs (allocator.region next)
      · rcases linked.absorb with ⟨absorbed, atCurrent, beforeSame, afterSame⟩
        rcases induction absorbed (Nat.lt_of_succ_lt_succ enough) with
          ⟨merged, kept, ran, mergedLinked, sameKey, regions⟩
        refine ⟨merged, kept, ?_, mergedLinked, sameKey, ?_⟩
        · rw [Loop.run]
          simp only [mergeStep, follows]
          rw [if_pos absorbs]
          exact ran
        · rw [regions, beforeSame, atCurrent, afterSame, List.map_cons,
            MemoryMap.mergeFrom, if_pos absorbs]
      · have stepped : allocator.Linked ((before ++ [current]) ++ next :: after) := by
          simpa using linked
        rcases induction stepped (Nat.lt_of_succ_lt_succ enough) with
          ⟨merged, kept, ran, mergedLinked, sameKey, regions⟩
        refine ⟨merged, current :: kept, ?_, ?_, sameKey, ?_⟩
        · rw [Loop.run]
          simp only [mergeStep, follows]
          rw [if_neg absorbs]
          exact ran
        · simpa using mergedLinked
        · rw [List.map_cons, MemoryMap.mergeFrom, if_neg absorbs]
          simpa using regions

/-! ## The representation relation -/

/-- The table is intact and its chain spells out the memory map. -/
def Represents (allocator : Allocator) (map : MemoryMap) : Prop :=
  ∃ slots, allocator.Linked slots ∧ slots.map allocator.region = map.regions ∧
    allocator.key = map.key

theorem Represents.key_eq {map : MemoryMap}
    (represents : allocator.Represents map) : allocator.key = map.key := by
  rcases represents with ⟨_, _, _, sameKey⟩
  exact sameKey

theorem new_represents : new.Represents MemoryMap.empty := by
  refine ⟨[], ⟨.nil, List.nodup_nil, ?_⟩, rfl, rfl⟩
  intro slot
  simp [new]

end Allocator

end HypervisorFirmware.Alloc
