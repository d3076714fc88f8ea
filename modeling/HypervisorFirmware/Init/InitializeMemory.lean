import HypervisorFirmware.Alloc.Conservation
import HypervisorFirmware.Pi.Hob

/-! # Initializing memory from the hand-off blocks

`initialize_memory` of `efi/init.rs` walks the list of hand-off blocks twice: once
to give the allocator the system memory, once to reserve what the platform
reports as allocated. The status of every allocator call is ignored. -/

namespace HypervisorFirmware.Init

open Efi HypervisorFirmware.Pi Alloc

def addSystemMemory (memory : ByteMemory) (header : Header) (hobHeader : UInt64)
    (allocator : Allocator) : Exec Allocator :=
  if header.type = hobTypeResourceDescriptor then
    let resourceHob := ResourceDescription.read memory hobHeader
    if resourceHob.resourceType = resourceSystemMemory then do
      let (_, allocator) ← allocator.addInitialAllocation .conventionalMemory
        (resourceHob.resourceLength / pageSize) resourceHob.physicalStart memoryWb
      return allocator
    else
      return allocator
  else
    return allocator

def reserveAllocation (memory : ByteMemory) (header : Header) (hobHeader : UInt64)
    (allocator : Allocator) : Exec Allocator :=
  if header.type = hobTypeMemoryAllocation then do
    let allocationHob ← MemoryAllocation.read memory hobHeader
    let (_, allocator) ← allocator.allocatePages .allocateAddress allocationHob.memoryType
      (allocationHob.memoryLength / pageSize) allocationHob.memoryBaseAddress
    return allocator
  else
    return allocator

def initializeMemory (fuel : Nat) (memory : ByteMemory) (hob : UInt64)
    (allocator : Allocator) : Exec Allocator := do
  let allocator ← scan memory (addSystemMemory memory) fuel hob allocator
  scan memory (reserveAllocation memory) fuel hob allocator

/-! ## The calls that the two loops make -/

def systemResource? : Hob → Option ResourceDescription
  | .resourceDescriptor resource =>
    if resource.resourceType = resourceSystemMemory then some resource else none
  | _ => none

def reservation? : Hob → Option MemoryAllocation
  | .memoryAllocation allocation => some allocation
  | _ => none

def systemResources (hobs : List Hob) : List ResourceDescription :=
  hobs.filterMap systemResource?

def reservations (hobs : List Hob) : List MemoryAllocation := hobs.filterMap reservation?

def initialRegion (resource : ResourceDescription) : InitialRegion :=
  ⟨.conventionalMemory, resource.resourceLength / pageSize, resource.physicalStart, memoryWb⟩

def reserve (allocation : MemoryAllocation) : Operation :=
  .allocatePages .allocateAddress allocation.memoryType
    (allocation.memoryLength / pageSize) allocation.memoryBaseAddress

def perform (call? : Hob → Option Operation) (allocator : Allocator) (hob : Hob) :
    Exec Allocator :=
  match call? hob with
  | none => .ok allocator
  | some operation => do
      let (_, next) ← step allocator operation
      return next

variable {allocator : Allocator} {hobHeader : UInt64}

theorem foldlM_perform {call? : Hob → Option Operation} {hobs : List Hob}
    {final : Allocator} {responses : List Response}
    (ran : run allocator (hobs.filterMap call?) = .ok (responses, final)) :
    hobs.foldlM (perform call?) allocator = .ok final := by
  induction hobs generalizing allocator responses with
  | nil =>
    cases ran
    rfl
  | cons hob hobs induction =>
    rw [List.foldlM_cons, perform]
    cases call : call? hob with
    | none =>
      rw [List.filterMap_cons_none call] at ran
      exact induction ran
    | some operation =>
      rw [List.filterMap_cons_some call] at ran
      rcases Machine.run_cons_eq_ok.mp ran with ⟨response, next, others, stepped, later, _⟩
      simpa [stepped] using induction later

theorem addSystemMemory_eq_perform {memory : ByteMemory} {header : Header} {hob : Hob}
    (allocator : Allocator)
    (read : Hob.read memory header hobHeader = .ok hob) :
    addSystemMemory memory header hobHeader allocator =
      perform (fun hob => (systemResource? hob).map
        (InitialRegion.operation ∘ initialRegion)) allocator hob := by
  unfold Hob.read at read
  unfold addSystemMemory
  by_cases isResource : header.type = hobTypeResourceDescriptor
  · simp only [isResource, if_true, Except.ok.injEq] at read ⊢
    subst read
    generalize ResourceDescription.read memory hobHeader = resource
    by_cases isMemory : resource.resourceType = resourceSystemMemory
    · simp only [perform, systemResource?, isMemory, if_true, Option.map_some,
        Function.comp_apply, initialRegion, InitialRegion.operation, step]
      cases allocator.addInitialAllocation .conventionalMemory
          (resource.resourceLength / pageSize) resource.physicalStart memoryWb with
      | error fault => rfl
      | ok outcome => rfl
    · simp only [perform, systemResource?, isMemory, if_false, Option.map_none]
      rfl
  · simp only [isResource, if_false] at read ⊢
    by_cases isAllocation : header.type = hobTypeMemoryAllocation
    · simp only [isAllocation, if_true] at read
      cases decoded : MemoryAllocation.read memory hobHeader with
      | error fault => simp [decoded] at read
      | ok allocation =>
        simp only [decoded, Exec.ok_bind] at read
        cases read
        rfl
    · simp only [isAllocation, if_false] at read
      cases read
      rfl

theorem reserveAllocation_eq_perform {memory : ByteMemory} {header : Header} {hob : Hob}
    (allocator : Allocator)
    (read : Hob.read memory header hobHeader = .ok hob) :
    reserveAllocation memory header hobHeader allocator =
      perform (fun hob => (reservation? hob).map reserve) allocator hob := by
  unfold Hob.read at read
  unfold reserveAllocation
  by_cases isAllocation : header.type = hobTypeMemoryAllocation
  · have notResource : hobTypeMemoryAllocation ≠ hobTypeResourceDescriptor := by decide
    simp only [isAllocation, notResource, if_false, if_true] at read ⊢
    cases decoded : MemoryAllocation.read memory hobHeader with
    | error fault => simp [decoded] at read
    | ok allocation =>
      simp only [decoded, Exec.ok_bind] at read ⊢
      cases read
      simp only [perform, reservation?, Option.map_some, reserve, step]
      cases allocator.allocatePages .allocateAddress allocation.memoryType
          (allocation.memoryLength / pageSize) allocation.memoryBaseAddress with
      | error fault => rfl
      | ok result => rfl
  · simp only [isAllocation, if_false] at read ⊢
    by_cases isResource : header.type = hobTypeResourceDescriptor
    · simp only [isResource, if_true] at read
      cases read
      rfl
    · simp only [isResource, if_false] at read
      cases read
      rfl

/-- On a list of blocks that ends, `initialize_memory` makes the calls for all
system memory and then those for all reservations. -/
theorem initializeMemory_eq {fuel : Nat} {memory : ByteMemory} {hob : UInt64}
    {hobs : List Hob} (listed : hobList memory fuel hob = .ok hobs)
    {middle final : Allocator} {added reserved : List Response}
    (ranFirst : run allocator
        (((systemResources hobs).map initialRegion).map InitialRegion.operation) =
      .ok (added, middle))
    (ranSecond : run middle ((reservations hobs).map reserve) = .ok (reserved, final)) :
    initializeMemory fuel memory hob allocator = .ok final := by
  rw [systemResources, List.map_map, List.map_filterMap] at ranFirst
  rw [reservations, List.map_filterMap] at ranSecond
  have first := scan_eq_foldlM (fun _ _ _ state read =>
    addSystemMemory_eq_perform state read) listed allocator
  have second := scan_eq_foldlM (fun _ _ _ state read =>
    reserveAllocation_eq_perform state read) listed middle
  rw [foldlM_perform ranFirst] at first
  rw [foldlM_perform ranSecond] at second
  rw [initializeMemory, first]
  exact second

end HypervisorFirmware.Init
