import Mathlib.Logic.Function.Basic
import HypervisorFirmware.Efi.Types
import HypervisorFirmware.Foundation.Chain

/-! # The page allocator

The allocator of `efi/alloc.rs`: a flat table of allocations whose used slots
are threaded into one list by `next_allocation`, in address order. All `u64`
arithmetic wraps, as in the release build. -/

namespace HypervisorFirmware.Alloc

open Efi

def pageSize : UInt64 := 4096

abbrev maxAllocations : Nat := 32768

abbrev Slot := Fin maxAllocations

structure Region where
  type : UInt32
  physicalStart : UInt64
  numberOfPages : UInt64
  attributes : UInt64
  deriving DecidableEq, Repr

structure MemoryDescriptor extends Region where
  virtualStart : UInt64
  deriving DecidableEq, Repr

structure Allocation where
  inUse : Bool
  nextAllocation : Option Slot
  descriptor : MemoryDescriptor
  deriving DecidableEq, Repr

structure Allocator where
  allocations : Slot → Allocation
  key : UInt64
  firstAllocation : Option Slot

namespace Region

def isConventional (region : Region) : Bool :=
  region.type == MemoryType.conventionalMemory.toUInt32

def canServe (allocationType : AllocateType) (pageCount address : UInt64)
    (region : Region) : Bool :=
  region.isConventional &&
    let allocBottom := region.physicalStart
    let allocTop := allocBottom + pageSize * region.numberOfPages
    match allocationType with
    | .allocateAddress =>
      let reqBottom := address
      let reqTop := reqBottom + pageSize * pageCount
      decide (reqBottom ≥ allocBottom) && decide (reqTop ≤ allocTop)
    | .allocateAnyPages =>
      -- Always allocate generic requests > 1MiB
      decide (region.numberOfPages ≥ pageCount) &&
        decide (region.physicalStart > 0x100000)
    | .allocateMaxAddress =>
      let reqBottom := region.physicalStart
      let reqTop := reqBottom + pageSize * pageCount
      decide (region.numberOfPages ≥ pageCount) && decide (reqTop ≤ address)

def absorbs (current next : Region) : Bool :=
  current.isConventional && next.isConventional &&
    next.physicalStart == current.physicalStart + current.numberOfPages * pageSize

/-- The final update of `allocate_pages`: set the type, and add the runtime
attribute where the type asks for it. -/
def assign (memoryType : MemoryType) (region : Region) : Region :=
  { region with
    type := memoryType.toUInt32
    attributes := region.attributes |||
      match memoryType with
      | .runtimeServicesCode | .runtimeServicesData => memoryRuntime
      | _ => 0 }

end Region

namespace Allocator

def new : Allocator where
  allocations _ :=
    { inUse := false
      nextAllocation := none
      descriptor :=
        { type := 0
          physicalStart := 0
          virtualStart := 0
          numberOfPages := 0
          attributes := 0 } }
  key := 0
  firstAllocation := none

def next (allocator : Allocator) (slot : Slot) : Option Slot :=
  (allocator.allocations slot).nextAllocation

def descriptor (allocator : Allocator) (slot : Slot) : MemoryDescriptor :=
  (allocator.allocations slot).descriptor

def region (allocator : Allocator) (slot : Slot) : Region :=
  (allocator.descriptor slot).toRegion

def modify (allocator : Allocator) (slot : Slot)
    (change : Allocation → Allocation) : Allocator :=
  { allocator with
    allocations := Function.update allocator.allocations slot
      (change (allocator.allocations slot)) }

abbrev walkFuel : Nat := maxAllocations + 1

def findSlot (wanted : Slot → Bool) :
    (remaining : Nat) → remaining ≤ maxAllocations → Option Slot
  | 0, _ => none
  | remaining + 1, bounded =>
    let slot : Slot := ⟨maxAllocations - (remaining + 1), by omega⟩
    if wanted slot then some slot
    else findSlot wanted remaining (by omega)

/-- `find_free_allocation`; the source reports "none" as `MAX_ALLOCATIONS`. -/
def findFreeAllocation (allocator : Allocator) : Option Slot :=
  findSlot (fun slot => !(allocator.allocations slot).inUse) maxAllocations (Nat.le_refl _)

/-- Fill in a slot for an initial region. The virtual address is not reset. -/
def fill (memoryType : MemoryType) (pageCount address attributes : UInt64)
    (allocation : Allocation) : Allocation where
  inUse := true
  nextAllocation := none
  descriptor :=
    { allocation.descriptor with
      type := memoryType.toUInt32
      numberOfPages := pageCount
      physicalStart := address
      attributes := attributes }

def addInitialAllocation (allocator : Allocator) (memoryType : MemoryType)
    (pageCount address attributes : UInt64) : Exec (Status × Allocator) :=
  let allocator := { allocator with key := allocator.key + 1 }
  match allocator.firstAllocation with
  | none =>
    .ok (.success,
      { allocator.modify 0 (fill memoryType pageCount address attributes) with
        firstAllocation := some 0 })
  | some first => do
      -- Find the last used allocation
      let last ← Chain.walk allocator.next
        (fun slot _ => (.inl slot : Slot ⊕ Slot)) id walkFuel (some first) first
      match allocator.findFreeAllocation with
      | none => return (.outOfResources, allocator)
      | some fresh =>
        let linked := allocator.modify last fun allocation =>
          { allocation with nextAllocation := some fresh }
        return (.success,
          linked.modify fresh (fill memoryType pageCount address attributes))

def findFreeMemory (allocator : Allocator) (allocationType : AllocateType)
    (pageCount address : UInt64) : Exec (Option Slot) :=
  Chain.walk allocator.next
    (fun slot _ =>
      if (allocator.region slot).canServe allocationType pageCount address then
        .inr (some slot)
      else
        .inl ())
    (fun _ => none) walkFuel allocator.firstAllocation ()

def splitAllocation (allocator : Allocator) (orig : Slot) (pages : UInt64) :
    Option Slot × Allocator :=
  match allocator.findFreeAllocation with
  | none => (none, allocator)
  | some new =>
    let source := allocator.allocations orig
    let copied := allocator.modify new fun allocation =>
      { inUse := true
        nextAllocation := source.nextAllocation
        descriptor :=
          { allocation.descriptor with
            numberOfPages := source.descriptor.numberOfPages - pages
            type := source.descriptor.type
            attributes := source.descriptor.attributes
            physicalStart := source.descriptor.physicalStart + pageSize * pages } }
    let shortened := copied.modify orig fun allocation =>
      { allocation with
        nextAllocation := some new
        descriptor := { allocation.descriptor with numberOfPages := pages } }
    (some new, shortened)

def updateRegion (allocator : Allocator) (slot : Slot) (change : Region → Region) :
    Allocator :=
  allocator.modify slot fun allocation =>
    { allocation with
      descriptor :=
        { allocation.descriptor with
          toRegion := change allocation.descriptor.toRegion } }

def assign (allocator : Allocator) (assigned : Slot) (memoryType : MemoryType) :
    (Status × UInt64) × Allocator :=
  ((.success, (allocator.region assigned).physicalStart),
    allocator.updateRegion assigned (Region.assign memoryType))

section

variable (allocator : Allocator)

def allocateAtStart (dest : Slot) (memoryType : MemoryType) (pageCount : UInt64) :
    (Status × UInt64) × Allocator :=
  match allocator.splitAllocation dest pageCount with
  | (none, allocator) => ((.outOfResources, 0), allocator)
  | (some _, allocator) => allocator.assign dest memoryType

def allocateInside (dest : Slot) (memoryType : MemoryType) (pageCount address : UInt64) :
    (Status × UInt64) × Allocator :=
  let pages := (address - (allocator.region dest).physicalStart) / pageSize
  match allocator.splitAllocation dest pages with
  | (none, allocator) => ((.outOfResources, 0), allocator)
  | (some split, allocator) =>
    -- If second half bigger than we need, split again but ignore that bit
    if (allocator.region split).numberOfPages > pageCount then
      match allocator.splitAllocation split pageCount with
      | (none, allocator) => ((.outOfResources, 0), allocator)
      | (some _, allocator) => allocator.assign split memoryType
    else
      allocator.assign split memoryType

def allocateFrom (dest : Slot) (allocateType : AllocateType) (memoryType : MemoryType)
    (pageCount address : UInt64) : (Status × UInt64) × Allocator :=
  let found := allocator.region dest
  if found.numberOfPages = pageCount then
    -- Identical special case
    ((.success, found.physicalStart),
      allocator.updateRegion dest fun region =>
        { region with type := memoryType.toUInt32 })
  else
    match allocateType with
    | .allocateAddress =>
      if found.physicalStart = address then
        allocator.allocateAtStart dest memoryType pageCount
      else
        allocator.allocateInside dest memoryType pageCount address
    | .allocateMaxAddress | .allocateAnyPages =>
      allocator.allocateAtStart dest memoryType pageCount

def allocatePages (allocateType : AllocateType) (memoryType : MemoryType)
    (pageCount address : UInt64) :
    Exec ((Status × UInt64) × Allocator) := do
  let dest ← allocator.findFreeMemory allocateType pageCount address
  match dest with
  | none => return ((.outOfResources, 0), allocator)
  | some dest =>
    let allocator := { allocator with key := allocator.key + 1 }
    return allocator.allocateFrom dest allocateType memoryType pageCount address

def absorb (current next : Slot) : Allocator :=
  let source := allocator.allocations next
  let grown := allocator.modify current fun allocation =>
    { allocation with
      nextAllocation := source.nextAllocation
      descriptor :=
        { allocation.descriptor with
          numberOfPages :=
            allocation.descriptor.numberOfPages + source.descriptor.numberOfPages } }
  grown.modify next fun allocation => { allocation with inUse := false }

end

def mergeStep : Allocator × Option Slot → Exec ((Allocator × Option Slot) ⊕ Allocator)
  | (allocator, none) => .ok (.inr allocator)
  | (allocator, some current) =>
    match allocator.next current with
    | none => .ok (.inr allocator)
    | some next =>
      if (allocator.region current).absorbs (allocator.region next) then
        -- Keep cur the same so as to handle 3 free blocks in a row
        .ok (.inl (allocator.absorb current next, some current))
      else
        .ok (.inl (allocator, some next))

section

variable (allocator : Allocator)

def mergeFreeMemory : Exec Allocator :=
  Loop.run mergeStep walkFuel (allocator, allocator.firstAllocation)

def freePages (address : UInt64) :
    Exec (Status × Allocator) := do
  let found ← Chain.walk allocator.next
    (fun slot _ =>
      if (allocator.region slot).physicalStart == address then .inr (some slot)
      else .inl ())
    (fun _ => none) walkFuel allocator.firstAllocation ()
  match found with
  | none => return (.notFound, allocator)
  | some slot =>
    let freed := allocator.updateRegion slot fun region =>
      { region with type := MemoryType.conventionalMemory.toUInt32 }
    let merged ← freed.mergeFreeMemory
    return (.success, merged)

def getDescriptorCount : Exec Nat :=
  Chain.walk allocator.next (fun _ count => (.inl (count + 1) : Nat ⊕ Nat)) id
    walkFuel allocator.firstAllocation 0

/-- `get_descriptors`: the number of descriptors written and the buffer after
the call. A buffer that is too short fails the assertion. -/
def getDescriptors (out : List MemoryDescriptor) :
    Exec (Nat × List MemoryDescriptor) := do
  let required ← allocator.getDescriptorCount
  if out.length < required then
    .error .panicked
  else
    Chain.walk allocator.next
      (fun slot (state : Nat × List MemoryDescriptor) =>
        .inl (state.1 + 1, state.2.set state.1 (allocator.descriptor slot)))
      id walkFuel allocator.firstAllocation (0, out)

/-- The memory map that `get_memory_map` reports: it passes `get_descriptors` a
buffer of exactly the required length. -/
def reportedMap : Exec (List MemoryDescriptor) := do
  let count ← allocator.getDescriptorCount
  let blank : MemoryDescriptor :=
    { type := 0, physicalStart := 0, numberOfPages := 0, attributes := 0, virtualStart := 0 }
  let (written, out) ← allocator.getDescriptors (List.replicate count blank)
  return out.take written

end

/-- `update_virtual_addresses`: a descriptor that matches nothing ends the
call, and what was written before stays. -/
def updateVirtualAddresses (allocator : Allocator) :
    List MemoryDescriptor → Exec (Status × Allocator)
  | [] => .ok (.success, allocator)
  | wanted :: rest => do
      let found ← Chain.walk allocator.next
        (fun slot _ =>
          if (allocator.region slot).physicalStart == wanted.physicalStart then
            .inr (some slot)
          else
            .inl ())
        (fun _ => none) walkFuel allocator.firstAllocation ()
      match found with
      | none => return (.notFound, allocator)
      | some slot =>
        (allocator.modify slot fun allocation =>
          { allocation with
            descriptor :=
              { allocation.descriptor with
                virtualStart := wanted.virtualStart } }).updateVirtualAddresses rest

def getMapKey (allocator : Allocator) : UInt64 := allocator.key

end Allocator

/-! ## Runs -/

inductive Operation
  | addInitialAllocation (memoryType : MemoryType)
      (pageCount address attributes : UInt64)
  | allocatePages (allocateType : AllocateType) (memoryType : MemoryType)
      (pageCount address : UInt64)
  | freePages (address : UInt64)
  | updateVirtualAddresses (descriptors : List MemoryDescriptor)
  deriving DecidableEq, Repr

structure Response where
  status : Status
  address : UInt64
  deriving DecidableEq, Repr

def step (allocator : Allocator) : Operation → Exec (Response × Allocator)
  | .addInitialAllocation memoryType pageCount address attributes => do
      let (status, next) ←
        allocator.addInitialAllocation memoryType pageCount address attributes
      return (⟨status, 0⟩, next)
  | .allocatePages allocateType memoryType pageCount address => do
      let ((status, assigned), next) ←
        allocator.allocatePages allocateType memoryType pageCount address
      return (⟨status, assigned⟩, next)
  | .freePages address => do
      let (status, next) ← allocator.freePages address
      return (⟨status, 0⟩, next)
  | .updateVirtualAddresses descriptors => do
      let (status, next) ← allocator.updateVirtualAddresses descriptors
      return (⟨status, 0⟩, next)

def run : Allocator → List Operation → Exec (List Response × Allocator) :=
  Machine.run step

end HypervisorFirmware.Alloc
