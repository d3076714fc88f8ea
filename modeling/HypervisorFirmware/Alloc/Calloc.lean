import HypervisorFirmware.Alloc.Conservation

/-! # Memory for single objects

`calloc.rs` allocates whole pages of `LoaderData` for an object. Its `free` hands
the address of its own parameter to `free_pages`, not the address that the
parameter holds. -/

namespace HypervisorFirmware.Alloc.Calloc

open Efi

def pagesFor (size : UInt64) : UInt64 := (size + pageSize - 1) / pageSize

def malloc (size : UInt64) (allocator : Allocator) :
    Exec (Except Status UInt64 × Allocator) := do
  let ((status, address), next) ← allocator.allocatePages .allocateAnyPages .loaderData
    (pagesFor size) 0
  if status ≠ .success then return (.error .outOfResources, next)
  else return (.ok address, next)

/-- `free(ptr)`, where the parameter `ptr` itself lies at the address `slot`. -/
def free (slot _ptr : UInt64) (allocator : Allocator) : Exec Allocator := do
  let (_, next) ← allocator.freePages slot
  return next

/-! ## Effects on the types of memory -/

def WellLaid (allocator : Allocator) : Prop :=
  ∃ map, allocator.Represents map ∧ Laid map.regions

theorem wellLaid_of_run {initial : List InitialRegion}
    (inOrder : InitialRegion.InOrder initial) {operations : List Operation}
    (calls : ∀ operation ∈ operations, PageCall operation)
    {responses : List Response} {allocator : Allocator}
    (ran : run Allocator.new (initial.map InitialRegion.operation ++ operations) =
      .ok (responses, allocator)) :
    WellLaid allocator := by
  refine ⟨_, represents_of_run Allocator.new_represents ran, ?_⟩
  rw [MemoryMap.run_append]
  exact (run_conserves inOrder.laid_run calls).1

/-- From one map to the next, conventional memory may have become `LoaderData`:
some of it if anything was obtained, none of it if nothing was. -/
structure Obtains (obtained : Prop) (regions regions' : List Region) : Prop where
  laid : Laid regions'
  grows : ∀ byte, typeAt regions' byte = typeAt regions byte ∨
    typeAt regions byte = some MemoryType.conventionalMemory.toUInt32 ∧
      typeAt regions' byte = some MemoryType.loaderData.toUInt32
  takes : obtained → ∃ byte,
    typeAt regions byte = some MemoryType.conventionalMemory.toUInt32 ∧
      typeAt regions' byte = some MemoryType.loaderData.toUInt32
  keeps : ¬obtained → ∀ byte, typeAt regions' byte = typeAt regions byte

namespace Obtains

variable {first second : Prop} {regions regions' regions'' : List Region}

theorem congr (effect : Obtains first regions regions') (same : first ↔ second) :
    Obtains second regions regions' :=
  propext same ▸ effect

theorem nothing (laid : Laid regions') (notObtained : ¬first)
    (same : ∀ byte, typeAt regions' byte = typeAt regions byte) :
    Obtains first regions regions' where
  laid := laid
  grows := fun byte => .inl (same byte)
  takes := fun obtained => absurd obtained notObtained
  keeps := fun _ => same

theorem loaderData_stays (later : Obtains second regions' regions'') {byte : Nat}
    (taken : typeAt regions' byte = some MemoryType.loaderData.toUInt32) :
    typeAt regions'' byte = some MemoryType.loaderData.toUInt32 := by
  rcases later.grows byte with same | ⟨_, taken'⟩
  · rw [same, taken]
  · exact taken'

theorem trans (earlier : Obtains first regions regions')
    (later : Obtains second regions' regions'') :
    Obtains (first ∨ second) regions regions'' where
  laid := later.laid
  grows := by
    intro byte
    rcases earlier.grows byte with same | ⟨free, taken⟩
    · rw [← same]
      exact later.grows byte
    · exact .inr ⟨free, later.loaderData_stays taken⟩
  takes := by
    intro obtained
    by_cases early : first
    · rcases earlier.takes early with ⟨byte, free, taken⟩
      exact ⟨byte, free, later.loaderData_stays taken⟩
    · rcases later.takes (obtained.resolve_left early) with ⟨byte, free, taken⟩
      exact ⟨byte, (earlier.keeps early byte).symm.trans free, taken⟩
  keeps := by
    intro none byte
    rw [later.keeps (fun obtained => none (.inr obtained)) byte,
      earlier.keeps (fun obtained => none (.inl obtained)) byte]

theorem same_iff (effect : Obtains first regions regions') :
    (∀ byte, typeAt regions' byte = typeAt regions byte) ↔ ¬first := by
  constructor
  · intro same obtained
    rcases effect.takes obtained with ⟨byte, free, taken⟩
    rw [same byte, free] at taken
    exact absurd taken (by decide)
  · exact effect.keeps

end Obtains

variable {allocator : Allocator} {map : MemoryMap}

/-- There is no memory for a request: no free region has the pages, or the first one
that does has to be split and all slots are in use. -/
def NoMemory (pageCount : UInt64) (regions : List Region) : Prop :=
  ∀ region, regions.find? (Region.canServe .allocateAnyPages pageCount 0) = some region →
    region.numberOfPages ≠ pageCount ∧ maxAllocations ≤ regions.length

theorem allocate_success_iff (map : MemoryMap) (memoryType : MemoryType) (pageCount : UInt64) :
    (map.allocate .allocateAnyPages memoryType pageCount 0).1.1 = .success ↔
      ¬NoMemory pageCount map.regions := by
  rcases map.allocate_cases .allocateAnyPages memoryType pageCount 0 with
    ⟨missing, unchanged⟩ | ⟨before, region, after, _, found, _, outcome⟩
  · simp [unchanged, NoMemory, missing]
  · have room : map.room = maxAllocations - map.regions.length := rfl
    rw [outcome]
    simp only [NoMemory, found, Option.some.injEq, forall_eq', Region.place]
    split_ifs with identical
    · simp [identical]
    · simp only [Region.placeAtStart]
      split
      · simp only [reduceCtorEq, false_iff, not_not]
        exact ⟨identical, by omega⟩
      · simp only [true_iff, not_and]
        intro _
        omega

theorem pagesFor_toNat (size : UInt64) :
    (pagesFor size).toNat = (size.toNat + 4095) % 2 ^ 64 / 4096 := by
  have sum : (size + pageSize).toNat = (size.toNat + 4096) % 2 ^ 64 := by
    rw [UInt64.toNat_add, pageSize_toNat]
  have rounded : (size + pageSize - 1).toNat = (size.toNat + 4095) % 2 ^ 64 := by
    rw [UInt64.toNat_sub, sum]
    simp only [UInt64.reduceToNat]
    omega
  rw [pagesFor, UInt64.toNat_div, rounded, pageSize_toNat]

theorem pages_pos {size : UInt64} (notEmpty : 0 < size) (fits : size.toNat + 4095 < 2 ^ 64) :
    0 < (pagesFor size).toNat := by
  have positive : 0 < size.toNat := UInt64.lt_iff_toNat_lt.mp notEmpty
  rw [pagesFor_toNat, Nat.mod_eq_of_lt fits]
  omega

def mallocMap (size : UInt64) (map : MemoryMap) : Except Status UInt64 × MemoryMap :=
  let ((status, address), next) :=
    map.allocate .allocateAnyPages .loaderData (pagesFor size) 0
  (if status ≠ .success then .error .outOfResources else .ok address, next)

theorem malloc_represents (represents : allocator.Represents map) (size : UInt64) :
    ∃ next, malloc size allocator = .ok ((mallocMap size map).1, next) ∧
      next.Represents (mallocMap size map).2 := by
  rcases Allocator.allocatePages_represents represents .allocateAnyPages .loaderData
      (pagesFor size) 0 with ⟨next, returned, kept⟩
  refine ⟨next, ?_, kept⟩
  rw [malloc, returned, mallocMap]
  simp only [Exec.ok_bind]
  split_ifs <;> rfl

theorem mallocMap_obtains (laid : Laid map.regions) {size : UInt64} (notEmpty : 0 < size)
    (fits : size.toNat + 4095 < 2 ^ 64) :
    Obtains (¬NoMemory (pagesFor size) map.regions) map.regions (mallocMap size map).2.regions := by
  have pages := pages_pos notEmpty fits
  have effect := laid.allocate (bounded_anyPages (pagesFor size) 0) .loaderData
  rw [← allocate_success_iff map .loaderData]
  unfold mallocMap
  revert effect
  generalize map.allocate .allocateAnyPages .loaderData (pagesFor size) 0 = outcome
  rcases outcome with ⟨⟨status, address⟩, map'⟩
  rintro ⟨laid', wereFree, types⟩
  by_cases succeeded : status = .success
  · subst succeeded
    have granted : Granted (.success, address) (pagesFor size)
        address.toNat := ⟨rfl, Nat.le_refl _, by simp only; omega⟩
    refine ⟨laid', ?_, ?_, ?_⟩
    · intro byte
      by_cases taken : Granted (.success, address) (pagesFor size) byte
      · exact .inr ⟨wereFree byte taken, (types byte).trans (if_pos taken)⟩
      · exact .inl ((types byte).trans (if_neg taken))
    · intro _
      exact ⟨address.toNat, wereFree _ granted, (types _).trans (if_pos granted)⟩
    · intro none
      exact absurd rfl none
  · refine Obtains.nothing laid' succeeded ?_
    intro byte
    exact (types byte).trans (if_neg fun granted => succeeded granted.1)

theorem free_represents (represents : allocator.Represents map) (slot ptr : UInt64) :
    ∃ next, free slot ptr allocator = .ok next ∧ next.Represents (map.free slot).2 := by
  rcases Allocator.freePages_represents represents slot with ⟨next, returned, kept⟩
  refine ⟨next, ?_, kept⟩
  rw [free, returned]
  rfl

theorem free_obtains (laid : Laid map.regions) {slot : UInt64}
    (noDescriptor : ∀ region ∈ map.regions, region.physicalStart ≠ slot) :
    Obtains False map.regions (map.free slot).2.regions := by
  rcases map.free_cases slot with
    ⟨_, unchanged⟩ | ⟨before, region, after, regionsEqual, _, _, starts, _⟩
  · rw [unchanged]
    exact .nothing laid not_false fun _ => rfl
  · exact absurd starts (noDescriptor region (by simp [regionsEqual]))

end HypervisorFirmware.Alloc.Calloc
