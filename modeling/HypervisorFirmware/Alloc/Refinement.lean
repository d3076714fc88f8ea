import HypervisorFirmware.Alloc.Representation

/-! # The allocator refines the memory map

Each operation returns, whatever its arguments, and takes a table that
represents a memory map to one that represents `MemoryMap.step` of it. -/

namespace HypervisorFirmware.Alloc

open Efi

namespace Allocator

variable {allocator : Allocator} {before : List Slot} {map : MemoryMap}

theorem Linked.walk_find? {slots : List Slot}
    (linked : allocator.Linked slots) (wanted : Slot → Bool) :
    Chain.walk allocator.next
      (fun slot (_ : Unit) => if wanted slot then .inr (some slot) else .inl ())
      (fun _ => none) walkFuel allocator.firstAllocation () = .ok (slots.find? wanted) := by
  rw [linked.chain.walk_eq_visitAll _ _ _ linked.length_lt_walkFuel, Chain.visitAll_find?]

/-! ## Adding regions -/

theorem fill_region (memoryType : MemoryType) (pageCount address attributes : UInt64)
    (allocation : Allocation) :
    (fill memoryType pageCount address attributes allocation).descriptor.toRegion =
      ⟨memoryType.toUInt32, address, pageCount, attributes⟩ := rfl

theorem Linked.append {last fresh : Slot} (linked : allocator.Linked (before ++ [last]))
    (found : allocator.findFreeAllocation = some fresh)
    (memoryType : MemoryType) (pageCount address attributes : UInt64) :
    let linkedTo := allocator.modify last fun allocation =>
      { allocation with nextAllocation := some fresh }
    let filled := linkedTo.modify fresh (fill memoryType pageCount address attributes)
    filled.Linked (before ++ [last, fresh]) ∧
      (before ++ [last, fresh]).map filled.region =
        (before ++ [last]).map allocator.region ++
          [⟨memoryType.toUInt32, address, pageCount, attributes⟩] := by
  intro linkedTo filled
  have notMember := linked.notMem_of_findFreeAllocation found
  have different : last ≠ fresh := by
    intro equal
    subst equal
    simp at notMember
  have atLast : filled.allocations last =
      { allocator.allocations last with nextAllocation := some fresh } := by
    simp only [filled, linkedTo]
    rw [modify_allocations_other _ _ different, modify_allocations_same]
  have atFresh : filled.allocations fresh =
      fill memoryType pageCount address attributes (allocator.allocations fresh) := by
    simp only [filled, linkedTo]
    rw [modify_allocations_same, modify_allocations_other _ _ (Ne.symm different)]
  have elsewhere : ∀ other, other ≠ last → other ≠ fresh →
      filled.allocations other = allocator.allocations other := by
    intro other notLast notFresh
    simp only [filled, linkedTo]
    rw [modify_allocations_other _ _ notFresh, modify_allocations_other _ _ notLast]
  have ends : allocator.next last = none := linked.chain.next_eq_head?
  constructor
  · constructor
    · apply linked.chain.insertAfter linked.nodup notMember
      · simp [next, atLast]
      · rw [ends]
        simp [next, atFresh, fill]
      · intro other notLast notFresh
        simp [next, elsewhere other notLast notFresh]
    · have reordered : (before ++ [last, fresh]).Perm (fresh :: (before ++ [last])) := by
        simpa using (List.perm_append_singleton fresh (before ++ [last]))
      rw [reordered.nodup_iff]
      exact List.nodup_cons.mpr ⟨notMember, linked.nodup⟩
    · intro slot
      by_cases isLast : slot = last
      · subst isLast
        have used := (linked.inUse slot).mpr (by simp)
        simp [atLast, used]
      · by_cases isFresh : slot = fresh
        · subst isFresh
          simp [atFresh, fill]
        · rw [elsewhere slot isLast isFresh, linked.inUse]
          simp [isLast, isFresh]
  · have sameRegions : (before ++ [last]).map filled.region =
        (before ++ [last]).map allocator.region := by
      apply List.map_congr_left
      intro kept member
      have notFresh : kept ≠ fresh := by
        intro equal
        subst equal
        exact notMember member
      by_cases isLast : kept = last
      · subst isLast
        simp [region, descriptor, atLast]
      · simp [region, descriptor, elsewhere kept isLast notFresh]
    have freshRegion : filled.region fresh =
        ⟨memoryType.toUInt32, address, pageCount, attributes⟩ := by
      simp [region, descriptor, atFresh, fill_region]
    have reassociated : before ++ [last, fresh] = (before ++ [last]) ++ [fresh] := by simp
    rw [reassociated, List.map_append, sameRegions]
    simp [freshRegion]

theorem Linked.fill_first (linked : allocator.Linked [])
    (memoryType : MemoryType) (pageCount address attributes : UInt64) :
    let filled : Allocator :=
      { allocator.modify 0 (fill memoryType pageCount address attributes) with
        firstAllocation := some 0 }
    filled.Linked [0] ∧
      [0].map filled.region = [⟨memoryType.toUInt32, address, pageCount, attributes⟩] := by
  intro filled
  have atZero : filled.allocations 0 =
      fill memoryType pageCount address attributes (allocator.allocations 0) :=
    modify_allocations_same allocator 0 (fill memoryType pageCount address attributes)
  refine ⟨⟨?_, by simp, ?_⟩, ?_⟩
  · apply Chain.cons
    simp only [next, atZero, fill]
    exact .nil
  · intro slot
    by_cases isZero : slot = 0
    · subst isZero
      simp [atZero, fill]
    · have unused := (linked.inUse slot).not.mpr (by simp)
      have elsewhere : filled.allocations slot = allocator.allocations slot :=
        modify_allocations_other allocator _ isZero
      rw [elsewhere]
      simpa [isZero] using unused
  · simp [region, descriptor, atZero, fill_region]

theorem Linked.walk_last {last first : Slot} (linked : allocator.Linked (before ++ [last])) :
    Chain.walk allocator.next (fun slot _ => (.inl slot : Slot ⊕ Slot)) id walkFuel
      allocator.firstAllocation first = .ok last := by
  rw [linked.chain.walk_eq_visitAll (fun slot _ => (.inl slot : Slot ⊕ Slot)) id walkFuel
    linked.length_lt_walkFuel first, Chain.visitAll_last]
  simp

theorem addInitialAllocation_represents
    (represents : allocator.Represents map) (memoryType : MemoryType)
    (pageCount address attributes : UInt64) :
    ∃ next, allocator.addInitialAllocation memoryType pageCount address attributes =
        .ok ((map.addRegion memoryType pageCount address attributes).1, next) ∧
      next.Represents (map.addRegion memoryType pageCount address attributes).2 := by
  rcases represents with ⟨slots, linked, regions, sameKey⟩
  have roomEq : map.room = maxAllocations - slots.length := by
    rw [MemoryMap.room, ← regions, List.length_map]
  have keyed := linked.withKey (allocator.key + 1)
  rcases allocator with ⟨allocations, key, firstAllocation⟩
  cases firstAllocation with
  | none =>
    have empty : slots = [] := by
      have noHead := linked.chain.start_eq_head?
      simpa using noHead.symm
    subst empty
    have roomLeft : map.room = (maxAllocations - 1) + 1 := by simp [roomEq]
    rcases keyed.fill_first memoryType pageCount address attributes with ⟨filled, filledRegions⟩
    simp only [addInitialAllocation, MemoryMap.addRegion, roomLeft]
    refine ⟨_, rfl, [0], filled, ?_, ?_⟩
    · rw [filledRegions, ← regions]
      rfl
    · simp [← sameKey]
  | some first =>
    have nonempty : slots ≠ [] := by
      intro empty
      subst empty
      have head := linked.chain.start_eq_head?
      simp at head
    rcases List.eq_nil_or_concat slots with empty | ⟨before, last, slotsEqual⟩
    · exact absurd empty nonempty
    have slotsEqual' : slots = before ++ [last] := by simpa using slotsEqual
    subst slotsEqual'
    have lastFound : Chain.walk (Allocator.next ⟨allocations, key + 1, some first⟩)
        (fun slot _ => (.inl slot : Slot ⊕ Slot)) id walkFuel (some first) first =
          .ok last := keyed.walk_last
    simp only [addInitialAllocation, lastFound]
    cases found : findFreeAllocation ⟨allocations, key + 1, some first⟩ with
    | none =>
      have full := keyed.findFreeAllocation_eq_none_iff.mp found
      have noRoom : map.room = 0 := by rw [roomEq, full]; simp
      simp only [MemoryMap.addRegion, noRoom]
      exact ⟨_, rfl, _, keyed, regions, by rw [← sameKey]⟩
    | some fresh =>
      have notFull : (before ++ [last]).length ≠ maxAllocations := by
        intro full
        rw [keyed.findFreeAllocation_eq_none_iff.mpr full] at found
        cases found
      have bound := linked.length_le
      rcases Nat.exists_eq_succ_of_ne_zero (n := map.room) (by omega) with
        ⟨room, roomLeft⟩
      rcases keyed.append found memoryType pageCount address attributes with
        ⟨appended, appendedRegions⟩
      simp only [MemoryMap.addRegion, roomLeft]
      refine ⟨_, rfl, _, appended, ?_, ?_⟩
      · rw [appendedRegions, ← regions]
        rfl
      · simp [← sameKey]

/-! ## Allocating -/

def Realizes (allocator : Allocator) (before after : List Slot)
    (outcome : (Status × UInt64) × Allocator)
    (placed : (Status × UInt64) × List Region) : Prop :=
  outcome.1 = placed.1 ∧ outcome.2.key = allocator.key ∧
    ∃ slots, outcome.2.Linked slots ∧
      slots.map outcome.2.region =
        before.map allocator.region ++ placed.2 ++ after.map allocator.region

theorem Linked.room_of_findFreeAllocation {slots : List Slot}
    {new : Slot} (linked : allocator.Linked slots)
    (found : allocator.findFreeAllocation = some new) :
    ∃ room, maxAllocations - slots.length = room + 1 := by
  have notFull : slots.length ≠ maxAllocations := by
    intro full
    rw [linked.findFreeAllocation_eq_none_iff.mpr full] at found
    cases found
  have bound := linked.length_le
  exact Nat.exists_eq_succ_of_ne_zero (by omega)

theorem Linked.noRoom_of_findFreeAllocation {slots : List Slot}
    (linked : allocator.Linked slots) (missing : allocator.findFreeAllocation = none) :
    maxAllocations - slots.length = 0 := by
  rw [linked.findFreeAllocation_eq_none_iff.mp missing, Nat.sub_self]

section

variable {after : List Slot} {dest : Slot} (linked : allocator.Linked (before ++ dest :: after))

include linked

theorem Linked.realizes_unchanged (answer : Status × UInt64) :
    Realizes allocator before after (answer, allocator) (answer, [allocator.region dest]) :=
  ⟨rfl, rfl, _, linked, by simp⟩

theorem Linked.allocateAtStart_realizes (memoryType : MemoryType) (pageCount : UInt64) :
    Realizes allocator before after
      (allocator.allocateAtStart dest memoryType pageCount)
      ((allocator.region dest).placeAtStart memoryType pageCount
        (maxAllocations - (before ++ dest :: after).length)) := by
  cases found : allocator.findFreeAllocation with
  | none =>
    have notSplit : allocator.splitAllocation dest pageCount = (none, allocator) := by
      simp [Allocator.splitAllocation, found]
    rw [linked.noRoom_of_findFreeAllocation found]
    simp only [allocateAtStart, notSplit, Region.placeAtStart]
    exact linked.realizes_unchanged _
  | some new =>
    rcases linked.room_of_findFreeAllocation found with ⟨room, roomEq⟩
    rcases linked.splitAllocation found pageCount with
      ⟨split, splitEq, splitLinked, splitKey, atDest, atNew, beforeSame, afterSame⟩
    rw [roomEq]
    simp only [allocateAtStart, splitEq, Region.placeAtStart, Allocator.assign]
    refine ⟨?_, ?_, _, splitLinked.updateRegion dest _, ?_⟩
    · simp [atDest, Region.firstPages]
    · simp [splitKey]
    · rw [splitLinked.map_updateRegion]
      simp [atDest, atNew, beforeSame, afterSame]

theorem Linked.allocateInside_realizes (memoryType : MemoryType) (pageCount address : UInt64) :
    Realizes allocator before after
      (allocator.allocateInside dest memoryType pageCount address)
      ((allocator.region dest).placeInside memoryType pageCount address
        (maxAllocations - (before ++ dest :: after).length)) := by
  cases found : allocator.findFreeAllocation with
  | none =>
    have notSplit : ∀ pages, allocator.splitAllocation dest pages = (none, allocator) := by
      intro pages
      simp [Allocator.splitAllocation, found]
    rw [linked.noRoom_of_findFreeAllocation found]
    simp only [allocateInside, notSplit, Region.placeInside]
    exact linked.realizes_unchanged _
  | some new =>
    rcases linked.room_of_findFreeAllocation found with ⟨room, roomEq⟩
    rcases linked.splitAllocation found
        ((address - (allocator.region dest).physicalStart) / pageSize) with
      ⟨split, splitEq, splitLinked, splitKey, atDest, atNew, beforeSame, afterSame⟩
    have reassociated : split.Linked ((before ++ [dest]) ++ new :: after) := by
      simpa using splitLinked
    have longer : ((before ++ [dest]) ++ new :: after).length =
        (before ++ dest :: after).length + 1 := by
      simp only [List.length_append, List.length_cons, List.length_nil]
      omega
    rw [roomEq]
    simp only [allocateInside, splitEq, Region.placeInside, ← atNew]
    by_cases bigger : (split.region new).numberOfPages > pageCount
    · simp only [bigger, if_true]
      cases secondFound : split.findFreeAllocation with
      | none =>
        have notSplit : split.splitAllocation new pageCount = (none, split) := by
          simp [Allocator.splitAllocation, secondFound]
        have noRoom := reassociated.noRoom_of_findFreeAllocation secondFound
        have roomZero : room = 0 := by omega
        subst roomZero
        simp only [notSplit]
        refine ⟨rfl, splitKey, _, splitLinked, ?_⟩
        simp [atDest, beforeSame, afterSame]
      | some second =>
        rcases reassociated.room_of_findFreeAllocation secondFound with
          ⟨later, laterEq⟩
        have roomSucc : room = later + 1 := by omega
        subst roomSucc
        rcases reassociated.splitAllocation secondFound pageCount with
          ⟨twice, twiceEq, twiceLinked, twiceKey, atSplit, atSecond, beforeSame', afterSame'⟩
        simp only [twiceEq, Allocator.assign]
        refine ⟨?_, ?_, _, twiceLinked.updateRegion new _, ?_⟩
        · simp [atSplit, Region.firstPages]
        · simp [twiceKey, splitKey]
        · rw [twiceLinked.map_updateRegion, beforeSame']
          simp [atDest, atSplit, atSecond, beforeSame, afterSame, afterSame']
    · simp only [bigger, if_false, Allocator.assign]
      refine ⟨rfl, ?_, _, reassociated.updateRegion new _, ?_⟩
      · simp [splitKey]
      · rw [reassociated.map_updateRegion]
        simp [atDest, beforeSame, afterSame]

theorem Linked.allocateFrom_realizes (allocateType : AllocateType) (memoryType : MemoryType)
    (pageCount address : UInt64) :
    Realizes allocator before after
      (allocator.allocateFrom dest allocateType memoryType pageCount address)
      ((allocator.region dest).place allocateType memoryType pageCount address
        (maxAllocations - (before ++ dest :: after).length)) := by
  have atStart := linked.allocateAtStart_realizes memoryType pageCount
  have inside := linked.allocateInside_realizes memoryType pageCount address
  unfold Allocator.allocateFrom Region.place
  by_cases identical : (allocator.region dest).numberOfPages = pageCount
  · simp only [identical, if_true]
    refine ⟨rfl, rfl, _, linked.updateRegion dest fun region =>
      { region with type := memoryType.toUInt32 }, ?_⟩
    rw [linked.map_updateRegion]
    simp [Region.withType]
  · simp only [identical, if_false]
    cases allocateType with
    | allocateAddress =>
      simp only
      split_ifs
      · exact atStart
      · exact inside
    | allocateMaxAddress => exact atStart
    | allocateAnyPages => exact atStart

end

theorem Represents.findFreeMemory
    (represents : allocator.Represents map) (allocateType : AllocateType)
    (pageCount address : UInt64) :
    ∃ found, allocator.findFreeMemory allocateType pageCount address = .ok found ∧
      map.regions.find? (Region.canServe allocateType pageCount address) =
        found.map allocator.region := by
  rcases represents with ⟨slots, linked, regions, _⟩
  refine ⟨_, linked.walk_find? _, ?_⟩
  rw [← regions, List.find?_map]
  rfl

theorem allocatePages_represents
    (represents : allocator.Represents map) (allocateType : AllocateType)
    (memoryType : MemoryType) (pageCount address : UInt64) :
    ∃ next, allocator.allocatePages allocateType memoryType pageCount address =
        .ok ((map.allocate allocateType memoryType pageCount address).1, next) ∧
      next.Represents (map.allocate allocateType memoryType pageCount address).2 := by
  rcases represents with ⟨slots, linked, regions, sameKey⟩
  have searched : allocator.findFreeMemory allocateType pageCount address =
      .ok (slots.find? fun slot =>
        (allocator.region slot).canServe allocateType pageCount address) :=
    linked.walk_find? _
  have sameSearch : map.regions.find? (Region.canServe allocateType pageCount address) =
      (slots.find? fun slot =>
        (allocator.region slot).canServe allocateType pageCount address).map
          allocator.region := by
    rw [← regions, List.find?_map]
    rfl
  cases found : slots.find? (fun slot =>
      (allocator.region slot).canServe allocateType pageCount address) with
  | none =>
    rw [found] at searched sameSearch
    simp only [allocatePages, searched, MemoryMap.allocate, sameSearch, Option.map_none]
    exact ⟨_, rfl, slots, linked, regions, sameKey⟩
  | some dest =>
    rw [found] at searched sameSearch
    rcases Selection.split_of_find?_eq_some found with
      ⟨before, after, slotsEqual, earlier, matched⟩
    subst slotsEqual
    have keyed := linked.withKey (allocator.key + 1)
    rcases keyed.allocateFrom_realizes allocateType memoryType pageCount address with
      ⟨sameAnswer, newKey, newSlots, newLinked, newRegions⟩
    have roomEq : map.room = maxAllocations - (before ++ dest :: after).length := by
      rw [MemoryMap.room, ← regions, List.length_map]
    have replaced : ∀ pieces, Selection.replaceFirst
        (Region.canServe allocateType pageCount address) pieces map.regions =
          before.map allocator.region ++ pieces ++ after.map allocator.region := by
      intro pieces
      rw [← regions, List.map_append, List.map_cons]
      apply Selection.replaceFirst_split
      · intro other member
        rcases List.mem_map.mp member with ⟨slot, slotMember, equal⟩
        subst equal
        exact earlier slot slotMember
      · exact matched
    simp only [allocatePages, searched, MemoryMap.allocate, sameSearch, Option.map_some,
      roomEq, replaced]
    refine ⟨_, ?_, newSlots, newLinked, newRegions, ?_⟩
    · exact congrArg Except.ok (Prod.ext sameAnswer rfl)
    · rw [newKey, sameKey]

/-! ## Freeing -/

theorem Linked.mergeFreeMemory {slots : List Slot} (linked : allocator.Linked slots) :
    ∃ merged kept, allocator.mergeFreeMemory = .ok merged ∧ merged.Linked kept ∧
      merged.key = allocator.key ∧
      kept.map merged.region = MemoryMap.merge (slots.map allocator.region) := by
  have starts := linked.chain.start_eq_head?
  cases slots with
  | nil =>
    refine ⟨allocator, [], ?_, linked, rfl, rfl⟩
    rw [Allocator.mergeFreeMemory, starts]
    rfl
  | cons first rest =>
    have enough : rest.length < walkFuel := Nat.lt_of_succ_lt linked.length_lt_walkFuel
    have fromFirst : allocator.Linked ([] ++ first :: rest) := linked
    rcases fromFirst.mergeLoop enough with
      ⟨merged, kept, ran, mergedLinked, sameKey, regions⟩
    refine ⟨merged, kept, ?_, mergedLinked, sameKey, regions⟩
    rw [Allocator.mergeFreeMemory, starts]
    exact ran

theorem freePages_represents (represents : allocator.Represents map) (address : UInt64) :
    ∃ next, allocator.freePages address = .ok ((map.free address).1, next) ∧
      next.Represents (map.free address).2 := by
  rcases represents with ⟨slots, linked, regions, sameKey⟩
  have searched := linked.walk_find? fun slot =>
    (allocator.region slot).physicalStart == address
  have sameSearch : map.regions.find? (fun region => region.physicalStart == address) =
      (slots.find? fun slot => (allocator.region slot).physicalStart == address).map
        allocator.region := by
    rw [← regions, List.find?_map]
    rfl
  cases found : slots.find? (fun slot =>
      (allocator.region slot).physicalStart == address) with
  | none =>
    rw [found] at searched sameSearch
    simp only [freePages, searched, MemoryMap.free, sameSearch, Option.map_none]
    exact ⟨_, rfl, slots, linked, regions, sameKey⟩
  | some slot =>
    rw [found] at searched sameSearch
    rcases Selection.split_of_find?_eq_some found with
      ⟨before, after, slotsEqual, earlier, matched⟩
    subst slotsEqual
    rcases (linked.updateRegion slot fun region =>
        { region with type := MemoryType.conventionalMemory.toUInt32 }).mergeFreeMemory with
      ⟨merged, kept, ran, mergedLinked, mergedKey, mergedRegions⟩
    have replaced : Selection.replaceFirst (fun region => region.physicalStart == address)
        [(allocator.region slot).withType .conventionalMemory] map.regions =
          before.map allocator.region ++
            [(allocator.region slot).withType .conventionalMemory] ++
              after.map allocator.region := by
      rw [← regions, List.map_append, List.map_cons]
      apply Selection.replaceFirst_split
      · intro other member
        rcases List.mem_map.mp member with ⟨earlierSlot, slotMember, equal⟩
        subst equal
        exact earlier earlierSlot slotMember
      · exact matched
    simp only [freePages, searched, MemoryMap.free, sameSearch, Option.map_some, replaced]
    refine ⟨merged, ?_, kept, mergedLinked, ?_, ?_⟩
    · change (Allocator.mergeFreeMemory _ >>= _) = _
      rw [ran]
      rfl
    · rw [mergedRegions, linked.map_updateRegion]
      simp [Region.withType]
    · rw [mergedKey, updateRegion_key, sameKey]

/-! ## Virtual addresses -/

/-- Virtual addresses are no part of the represented map, so the map stays,
and the status says whether every address was found. -/
theorem updateVirtualAddresses_represents
    (represents : allocator.Represents map) (descriptors : List MemoryDescriptor) :
    ∃ next, allocator.updateVirtualAddresses descriptors =
        .ok ((map.step (.updateVirtualAddresses descriptors)).1.status, next) ∧
      next.Represents map := by
  induction descriptors generalizing allocator with
  | nil => exact ⟨allocator, rfl, represents⟩
  | cons wanted rest induction =>
    rcases represents with ⟨slots, linked, regions, sameKey⟩
    have searched := linked.walk_find? fun slot =>
      (allocator.region slot).physicalStart == wanted.physicalStart
    have known : map.regions.any
        (fun region => region.physicalStart == wanted.physicalStart) =
          (slots.find? fun slot =>
            (allocator.region slot).physicalStart == wanted.physicalStart).isSome := by
      rw [← regions, List.any_map, List.isSome_find?]
      rfl
    cases found : slots.find? (fun slot =>
        (allocator.region slot).physicalStart == wanted.physicalStart) with
    | none =>
      rw [found] at searched known
      simp only [updateVirtualAddresses, searched, MemoryMap.step, List.all_cons, known]
      exact ⟨_, rfl, slots, linked, regions, sameKey⟩
    | some slot =>
      rw [found] at searched known
      simp only [updateVirtualAddresses, searched, MemoryMap.step, List.all_cons, known]
      apply induction
      refine ⟨slots, linked.modify slot _ (fun _ => rfl) (fun _ => rfl), ?_, sameKey⟩
      rw [← regions]
      apply List.map_congr_left
      intro other _
      by_cases equal : other = slot
      · subst equal
        simp [region, descriptor]
      · exact modify_region_other _ _ equal

end Allocator

/-! ## Steps and runs -/

/-- Every operation returns, answers as the memory map answers, and keeps the
representation. -/
theorem step_represents {allocator : Allocator} {map : MemoryMap}
    (represents : allocator.Represents map) (operation : Operation) :
    ∃ next, step allocator operation = .ok ((map.step operation).1, next) ∧
      next.Represents (map.step operation).2 := by
  cases operation with
  | addInitialAllocation memoryType pageCount address attributes =>
    rcases Allocator.addInitialAllocation_represents represents memoryType pageCount
        address attributes with ⟨next, returned, kept⟩
    exact ⟨next, by simp [step, returned]; rfl, kept⟩
  | allocatePages allocateType memoryType pageCount address =>
    rcases Allocator.allocatePages_represents represents allocateType memoryType pageCount
        address with ⟨next, returned, kept⟩
    exact ⟨next, by simp [step, returned]; rfl, kept⟩
  | freePages address =>
    rcases Allocator.freePages_represents represents address with ⟨next, returned, kept⟩
    exact ⟨next, by simp [step, returned]; rfl, kept⟩
  | updateVirtualAddresses descriptors =>
    rcases Allocator.updateVirtualAddresses_represents represents descriptors with
      ⟨next, returned, kept⟩
    exact ⟨next, by simp [step, returned]; rfl, kept⟩

end HypervisorFirmware.Alloc
