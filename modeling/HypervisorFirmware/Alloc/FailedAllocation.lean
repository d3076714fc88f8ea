import HypervisorFirmware.Alloc.Conservation

/-! # Allocations that fail

`allocate_pages` counts the key up as soon as it has found a region, and then may
run out of slots while it cuts the region. Between two cuts the first one stays. -/

namespace HypervisorFirmware.Alloc

open Efi

/-! ## Slots for the cuts -/

namespace Region

def cuts (allocateType : AllocateType) (pageCount address : UInt64) (region : Region) : Nat :=
  if region.numberOfPages = pageCount then
    0
  else
    match allocateType with
    | .allocateAddress =>
      if region.physicalStart = address then
        1
      else if region.numberOfPages - (address - region.physicalStart) / pageSize >
          pageCount then
        2
      else
        1
    | .allocateMaxAddress | .allocateAnyPages => 1

theorem placeAtStart_status (memoryType : MemoryType) (pageCount : UInt64) (room : Nat)
    (region : Region) :
    (region.placeAtStart memoryType pageCount room).1 =
      if 1 ≤ room then (.success, region.physicalStart) else (.outOfResources, 0) := by
  cases room <;> simp [placeAtStart]

theorem placeInside_status (memoryType : MemoryType) (pageCount address : UInt64)
    (room : Nat) (region : Region) :
    (region.placeInside memoryType pageCount address room).1 =
      if (if region.numberOfPages - (address - region.physicalStart) / pageSize > pageCount
          then 2 else 1) ≤ room then
        (.success, (region.dropPages ((address - region.physicalStart) / pageSize)).physicalStart)
      else
        (.outOfResources, 0) := by
  have second : (region.dropPages ((address - region.physicalStart) / pageSize)).numberOfPages =
      region.numberOfPages - (address - region.physicalStart) / pageSize := rfl
  unfold placeInside
  simp only [second]
  by_cases bigger : region.numberOfPages - (address - region.physicalStart) / pageSize > pageCount
  · simp only [bigger, if_true]
    cases room with
    | zero => rfl
    | succ room =>
      cases room with
      | zero => rfl
      | succ room => simp
  · simp only [bigger, if_false]
    cases room with
    | zero => rfl
    | succ room => simp

variable (allocateType : AllocateType) (memoryType : MemoryType) (pageCount address : UInt64)
  (room : Nat) (region : Region)

theorem place_success_iff :
    (region.place allocateType memoryType pageCount address room).1.1 = .success ↔
      region.cuts allocateType pageCount address ≤ room := by
  have atStart : (region.placeAtStart memoryType pageCount room).1.1 = .success ↔ 1 ≤ room := by
    rw [placeAtStart_status]
    split_ifs with enough <;> simp [enough]
  unfold place cuts
  by_cases identical : region.numberOfPages = pageCount
  · simp [identical]
  · simp only [identical, if_false]
    cases allocateType with
    | allocateMaxAddress => exact atStart
    | allocateAnyPages => exact atStart
    | allocateAddress =>
      by_cases first : region.physicalStart = address
      · simp only [first, if_true]
        exact atStart
      · simp only [first, if_false]
        rw [placeInside_status]
        split_ifs <;> simp_all

theorem place_status :
    (region.place allocateType memoryType pageCount address room).1.1 = .success ∨
      (region.place allocateType memoryType pageCount address room).1.1 =
        .outOfResources := by
  have atStart : (region.placeAtStart memoryType pageCount room).1.1 = .success ∨
      (region.placeAtStart memoryType pageCount room).1.1 = .outOfResources := by
    rw [placeAtStart_status]
    split_ifs <;> simp
  rcases region.place_cases allocateType memoryType pageCount address room with
    ⟨_, placed⟩ | ⟨_, _, placed⟩ | ⟨_, _, _, placed⟩
  · rw [placed]
    exact .inl rfl
  · rw [placed]
    exact atStart
  · rw [placed, placeInside_status]
    split_ifs <;> simp

end Region

/-- For the first region that can serve the request, as many slots are free as it has
to be cut. -/
def HasSlots (allocateType : AllocateType) (pageCount address : UInt64)
    (regions : List Region) : Prop :=
  ∀ region, regions.find? (Region.canServe allocateType pageCount address) = some region →
    region.cuts allocateType pageCount address ≤ maxAllocations - regions.length

/-! ## Failing without an effect -/

namespace Allocator

def Intact (allocator : Allocator) : Prop := ∃ slots, allocator.Linked slots

variable {allocator : Allocator}

theorem Intact.represents (intact : allocator.Intact) : ∃ map, allocator.Represents map := by
  rcases intact with ⟨slots, linked⟩
  exact ⟨⟨slots.map allocator.region, allocator.key⟩, slots, linked, rfl, rfl⟩

theorem Represents.intact {map : MemoryMap}
    (represents : allocator.Represents map) : allocator.Intact := by
  rcases represents with ⟨slots, linked, _⟩
  exact ⟨slots, linked⟩

/-- The call returns, and unless it succeeds, the reported memory map and the map key
are what they were before. -/
def FailsCleanly (allocator : Allocator) (allocateType : AllocateType)
    (memoryType : MemoryType) (pageCount address : UInt64) : Prop :=
  ∃ status assigned next,
    allocator.allocatePages allocateType memoryType pageCount address =
      .ok ((status, assigned), next) ∧
    (status ≠ .success →
      next.reportedMap = allocator.reportedMap ∧ next.getMapKey = allocator.getMapKey)

end Allocator

namespace Allocator

variable {allocateType : AllocateType} {allocator : Allocator} {memoryType : MemoryType}
   {pageCount : UInt64}

theorem Represents.failsCleanly_of_unserved {map : MemoryMap}
    (represents : allocator.Represents map) {address : UInt64}
    (missing : map.regions.find? (Region.canServe allocateType pageCount address) = none) :
    allocator.FailsCleanly allocateType memoryType pageCount address := by
  rcases represents.findFreeMemory allocateType pageCount address with
    ⟨found, searched, search⟩
  rw [missing] at search
  have unserved := Option.map_eq_none_iff.mp search.symm
  refine ⟨.outOfResources, 0, allocator, ?_, fun _ => ⟨rfl, rfl⟩⟩
  rw [allocatePages, searched, unserved]
  rfl

theorem Represents.failsCleanly_of_served {map : MemoryMap}
    (represents : allocator.Represents map) {address : UInt64} {region : Region}
    (found : map.regions.find? (Region.canServe allocateType pageCount address) = some region) :
    allocator.FailsCleanly allocateType memoryType pageCount address ↔
      region.cuts allocateType pageCount address ≤ map.room := by
  rcases allocatePages_represents represents allocateType memoryType pageCount address with
    ⟨next, returned, kept⟩
  rw [← region.place_success_iff allocateType memoryType]
  simp only [MemoryMap.allocate, found] at returned kept
  constructor
  · rintro ⟨status, assigned, next', returned', clean⟩
    simp only [returned, Except.ok.injEq, Prod.mk.injEq] at returned'
    rcases returned' with ⟨answer, sameNext⟩
    subst sameNext
    by_contra failed
    rw [answer] at failed
    have sameKey := (clean failed).2
    rw [getMapKey, getMapKey, kept.key_eq, represents.key_eq] at sameKey
    simp at sameKey
  · intro success
    exact ⟨_, _, next, returned, fun failed => absurd success failed⟩

end Allocator

/-- A failing allocation has no effect exactly if the table has a slot for each cut
that the request needs. -/
theorem failsCleanly_iff_hasSlots {allocator : Allocator} (intact : allocator.Intact)
    (allocateType : AllocateType) (memoryType : MemoryType) (pageCount address : UInt64) :
    allocator.FailsCleanly allocateType memoryType pageCount address ↔
      allocator.Reports (HasSlots allocateType pageCount address) := by
  rcases intact.represents with ⟨map, represents⟩
  rw [represents.reports_iff, HasSlots]
  cases found : map.regions.find? (Region.canServe allocateType pageCount address) with
  | none =>
    have clean : allocator.FailsCleanly allocateType memoryType pageCount address :=
      represents.failsCleanly_of_unserved found
    simp [clean]
  | some region =>
    rw [represents.failsCleanly_of_served found]
    simp [MemoryMap.room]

/-- A request inside of a region, which has to be cut twice. -/
theorem failsCleanly_iff_hasSlots_inside :
    ∃ responses allocator,
      run Allocator.new [.addInitialAllocation .conventionalMemory 4 0x200000 memoryWb] =
        .ok (responses, allocator) ∧
      allocator.FailsCleanly .allocateAddress .loaderData 1 0x201000 := by
  rcases run_represents Allocator.new_represents
    [.addInitialAllocation .conventionalMemory 4 0x200000 memoryWb] with
    ⟨allocator, ran, represents⟩
  refine ⟨_, allocator, ran, (failsCleanly_iff_hasSlots represents.intact _ _ _ _).mpr ?_⟩
  rw [represents.reports_iff]
  rintro region found
  obtain rfl : region = ⟨7, 0x200000, 4, memoryWb⟩ := (Option.some.inj found).symm
  decide

def scattered : List InitialRegion :=
  (List.range (maxAllocations - 1)).map fun index =>
    ⟨.conventionalMemory, 4, 0x200000 + 0x5000 * UInt64.ofNat index, memoryWb⟩

/-- With one slot left a request inside a descriptor makes its first cut, counts the key
up and then fails. -/
theorem not_failsCleanly_one_slot :
    ∃ responses allocator,
      run Allocator.new (scattered.map InitialRegion.operation) = .ok (responses, allocator) ∧
      ¬allocator.FailsCleanly .allocateAddress .loaderData 1 0x201000 := by
  rcases run_represents Allocator.new_represents (scattered.map InitialRegion.operation) with
    ⟨allocator, ran, represents⟩
  have size : maxAllocations - 1 = 32766 + 1 := rfl
  have length : scattered.length = 32766 + 1 := by simp [scattered]
  have regions := MemoryMap.empty.run_initial_of_room scattered (by rw [length]; decide)
  have found : (MemoryMap.empty.run (scattered.map InitialRegion.operation)).regions.find?
      (Region.canServe .allocateAddress 1 0x201000) =
        some ⟨7, 0x200000, 4, memoryWb⟩ := by
    rw [regions, scattered, size, List.range_succ_eq_map]
    rfl
  have room : (MemoryMap.empty.run (scattered.map InitialRegion.operation)).room = 1 := by
    rw [MemoryMap.room, regions, List.length_append, List.length_map, length]
    rfl
  refine ⟨_, allocator, ran, ?_⟩
  rw [represents.failsCleanly_of_served found, room]
  decide

end HypervisorFirmware.Alloc
