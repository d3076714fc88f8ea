import HypervisorFirmware.Alloc.Allocator
import HypervisorFirmware.Foundation.Selection

/-! # The memory map as a list of regions

What the allocator does, told without its table: the chain is a list of
regions in chain order, an allocation cuts one region of it into pieces, and a
free relabels one region and joins neighbours. The number of regions still
decides when slots run out. -/

namespace HypervisorFirmware.Alloc

open Efi

namespace Region

def firstPages (pages : UInt64) (region : Region) : Region :=
  { region with numberOfPages := pages }

def dropPages (pages : UInt64) (region : Region) : Region :=
  { region with
    numberOfPages := region.numberOfPages - pages
    physicalStart := region.physicalStart + pageSize * pages }

def withType (memoryType : MemoryType) (region : Region) : Region :=
  { region with type := memoryType.toUInt32 }

def join (current next : Region) : Region :=
  { current with numberOfPages := current.numberOfPages + next.numberOfPages }

def placeAtStart (memoryType : MemoryType) (pageCount : UInt64) (room : Nat)
    (region : Region) : (Status × UInt64) × List Region :=
  match room with
  | 0 => ((.outOfResources, 0), [region])
  | _ + 1 =>
    ((.success, region.physicalStart),
      [(region.firstPages pageCount).assign memoryType, region.dropPages pageCount])

/-- What an allocation further inside a region puts in its place. With a single
free slot the first cut is kept although the call fails. -/
def placeInside (memoryType : MemoryType) (pageCount address : UInt64) (room : Nat)
    (region : Region) : (Status × UInt64) × List Region :=
  let pages := (address - region.physicalStart) / pageSize
  let low := region.firstPages pages
  let high := region.dropPages pages
  match room with
  | 0 => ((.outOfResources, 0), [region])
  | room + 1 =>
    if high.numberOfPages > pageCount then
      match room with
      | 0 => ((.outOfResources, 0), [low, high])
      | _ + 1 =>
        ((.success, high.physicalStart),
          [low, (high.firstPages pageCount).assign memoryType,
            high.dropPages pageCount])
    else
      ((.success, high.physicalStart), [low, high.assign memoryType])

def place (allocateType : AllocateType) (memoryType : MemoryType)
    (pageCount address : UInt64) (room : Nat) (region : Region) :
    (Status × UInt64) × List Region :=
  if region.numberOfPages = pageCount then
    ((.success, region.physicalStart), [region.withType memoryType])
  else
    match allocateType with
    | .allocateAddress =>
      if region.physicalStart = address then
        region.placeAtStart memoryType pageCount room
      else
        region.placeInside memoryType pageCount address room
    | .allocateMaxAddress | .allocateAnyPages =>
      region.placeAtStart memoryType pageCount room

theorem placeInside_succ (memoryType : MemoryType) (pageCount address : UInt64) (room : Nat)
    (region : Region) :
    let pages := (address - region.physicalStart) / pageSize
    let behind := (region.dropPages pages).placeAtStart memoryType pageCount room
    region.placeInside memoryType pageCount address (room + 1) =
      if (region.dropPages pages).numberOfPages > pageCount then
        (behind.1, region.firstPages pages :: behind.2)
      else
        ((.success, (region.dropPages pages).physicalStart),
          [region.firstPages pages, (region.dropPages pages).assign memoryType]) := by
  simp only [placeInside]
  split_ifs
  · cases room <;> rfl
  · rfl

/-- A request takes a region of its size as a whole. Otherwise it is placed at the start
of the region or, at a given address, inside of it. -/
theorem place_cases (allocateType : AllocateType) (memoryType : MemoryType)
    (pageCount address : UInt64) (room : Nat) (region : Region) :
    (region.numberOfPages = pageCount ∧
      region.place allocateType memoryType pageCount address room =
        ((.success, region.physicalStart), [region.withType memoryType])) ∨
    (region.numberOfPages ≠ pageCount ∧
      (allocateType = .allocateAddress → region.physicalStart = address) ∧
      region.place allocateType memoryType pageCount address room =
        region.placeAtStart memoryType pageCount room) ∨
    (region.numberOfPages ≠ pageCount ∧ allocateType = .allocateAddress ∧
      region.physicalStart ≠ address ∧
      region.place allocateType memoryType pageCount address room =
        region.placeInside memoryType pageCount address room) := by
  unfold place
  by_cases identical : region.numberOfPages = pageCount
  · exact .inl ⟨identical, if_pos identical⟩
  · rw [if_neg identical]
    cases allocateType with
    | allocateAddress =>
      by_cases first : region.physicalStart = address
      · exact .inr (.inl ⟨identical, fun _ => first, if_pos first⟩)
      · exact .inr (.inr ⟨identical, rfl, first, if_neg first⟩)
    | allocateMaxAddress => exact .inr (.inl ⟨identical, by simp, rfl⟩)
    | allocateAnyPages => exact .inr (.inl ⟨identical, by simp, rfl⟩)

end Region

structure MemoryMap where
  regions : List Region
  key : UInt64
  deriving DecidableEq, Repr

namespace MemoryMap

def empty : MemoryMap := ⟨[], 0⟩

def room (map : MemoryMap) : Nat := maxAllocations - map.regions.length

def addRegion (map : MemoryMap) (memoryType : MemoryType)
    (pageCount address attributes : UInt64) : Status × MemoryMap :=
  let key := map.key + 1
  match map.room with
  | 0 => (.outOfResources, { map with key })
  | _ + 1 =>
    (.success,
      { regions := map.regions ++ [⟨memoryType.toUInt32, address, pageCount, attributes⟩]
        key })

def allocate (map : MemoryMap) (allocateType : AllocateType) (memoryType : MemoryType)
    (pageCount address : UInt64) : (Status × UInt64) × MemoryMap :=
  let wanted := Region.canServe allocateType pageCount address
  match map.regions.find? wanted with
  | none => ((.outOfResources, 0), map)
  | some region =>
    let placed := region.place allocateType memoryType pageCount address map.room
    (placed.1,
      { regions := Selection.replaceFirst wanted placed.2 map.regions
        key := map.key + 1 })

/-- Join `current` with the free regions that directly follow it, then go on
with the first region that does not join. -/
def mergeFrom (current : Region) : List Region → List Region
  | [] => [current]
  | next :: rest =>
    if current.absorbs next then mergeFrom (current.join next) rest
    else current :: mergeFrom next rest

def merge : List Region → List Region
  | [] => []
  | first :: rest => mergeFrom first rest

def free (map : MemoryMap) (address : UInt64) : Status × MemoryMap :=
  let wanted := fun region : Region => region.physicalStart == address
  match map.regions.find? wanted with
  | none => (.notFound, map)
  | some region =>
    (.success,
      { map with
        regions := merge (Selection.replaceFirst wanted
          [region.withType .conventionalMemory] map.regions) })

theorem allocate_cases (map : MemoryMap) (allocateType : AllocateType)
    (memoryType : MemoryType) (pageCount address : UInt64) :
    (map.regions.find? (Region.canServe allocateType pageCount address) = none ∧
      map.allocate allocateType memoryType pageCount address = ((.outOfResources, 0), map)) ∨
    ∃ before region after, map.regions = before ++ region :: after ∧
      map.regions.find? (Region.canServe allocateType pageCount address) = some region ∧
      region.canServe allocateType pageCount address = true ∧
      map.allocate allocateType memoryType pageCount address =
        ((region.place allocateType memoryType pageCount address map.room).1,
          { regions := before ++
              (region.place allocateType memoryType pageCount address map.room).2 ++ after
            key := map.key + 1 }) := by
  cases found : map.regions.find? (Region.canServe allocateType pageCount address) with
  | none => exact .inl ⟨rfl, by simp [allocate, found]⟩
  | some region =>
    rcases Selection.split_of_find?_eq_some found with
      ⟨before, after, regionsEqual, earlier, serves⟩
    refine .inr ⟨before, region, after, regionsEqual, rfl, serves, ?_⟩
    simp only [allocate, found]
    rw [regionsEqual, Selection.replaceFirst_split _ earlier serves]

theorem free_split {map : MemoryMap} {before after : List Region} {region : Region}
    {address : UInt64} (regionsEqual : map.regions = before ++ region :: after)
    (earlier : ∀ other ∈ before, other.physicalStart ≠ address)
    (starts : region.physicalStart = address) :
    map.free address =
      (.success,
        { map with
          regions := merge (before ++ [region.withType .conventionalMemory] ++ after) }) := by
  have fails : ∀ other ∈ before, (other.physicalStart == address) = false := by
    intro other member
    simpa using earlier other member
  have found : map.regions.find? (fun region => region.physicalStart == address) = some region := by
    rw [regionsEqual, List.find?_append, List.find?_eq_none.mpr (by simpa using earlier)]
    simp [starts]
  simp only [free, found]
  rw [regionsEqual, Selection.replaceFirst_split _ fails (beq_iff_eq.mpr starts)]

theorem free_cases (map : MemoryMap) (address : UInt64) :
    (map.regions.find? (fun region => region.physicalStart == address) = none ∧
      map.free address = (.notFound, map)) ∨
    ∃ before region after, map.regions = before ++ region :: after ∧
      map.regions.find? (fun region => region.physicalStart == address) = some region ∧
      (∀ other ∈ before, other.physicalStart ≠ address) ∧ region.physicalStart = address ∧
      map.free address =
        (.success,
          { map with
            regions := merge (before ++ [region.withType .conventionalMemory] ++ after) }) := by
  cases found : map.regions.find? fun region => region.physicalStart == address with
  | none => exact .inl ⟨rfl, by simp [free, found]⟩
  | some region =>
    rcases Selection.split_of_find?_eq_some found with
      ⟨before, after, regionsEqual, fails, matched⟩
    have earlier : ∀ other ∈ before, other.physicalStart ≠ address := fun other member =>
      ne_of_beq_false (fails other member)
    have starts := eq_of_beq matched
    exact .inr ⟨before, region, after, regionsEqual, rfl, earlier, starts,
      free_split regionsEqual earlier starts⟩

end MemoryMap

/-- The effect of an operation on the map. Virtual addresses are no part of
it; whether they all match shows only in the status. -/
def MemoryMap.step (map : MemoryMap) : Operation → Response × MemoryMap
  | .addInitialAllocation memoryType pageCount address attributes =>
    let (status, next) := map.addRegion memoryType pageCount address attributes
    (⟨status, 0⟩, next)
  | .allocatePages allocateType memoryType pageCount address =>
    let ((status, assigned), next) :=
      map.allocate allocateType memoryType pageCount address
    (⟨status, assigned⟩, next)
  | .freePages address =>
    let (status, next) := map.free address
    (⟨status, 0⟩, next)
  | .updateVirtualAddresses descriptors =>
    let known := descriptors.all fun wanted =>
      map.regions.any fun region => region.physicalStart == wanted.physicalStart
    (⟨if known then .success else .notFound, 0⟩, map)

def MemoryMap.run (map : MemoryMap) (operations : List Operation) : MemoryMap :=
  operations.foldl (fun current operation => (current.step operation).2) map

@[simp] theorem MemoryMap.run_nil (map : MemoryMap) : map.run [] = map := rfl

@[simp] theorem MemoryMap.run_cons (map : MemoryMap) (operation : Operation)
    (rest : List Operation) :
    map.run (operation :: rest) = (map.step operation).2.run rest := rfl

def MemoryMap.responses (map : MemoryMap) : List Operation → List Response
  | [] => []
  | operation :: rest =>
    (map.step operation).1 :: (map.step operation).2.responses rest

theorem MemoryMap.run_append (map : MemoryMap) (first second : List Operation) :
    map.run (first ++ second) = (map.run first).run second :=
  List.foldl_append

end HypervisorFirmware.Alloc
