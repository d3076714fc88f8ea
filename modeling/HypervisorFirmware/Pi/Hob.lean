import HypervisorFirmware.Efi.Types
import HypervisorFirmware.Foundation.ByteMemory
import HypervisorFirmware.Foundation.Execution

/-! # Hand-off blocks

The list of hand-off blocks (HOBs) that the platform leaves in memory, with the
blocks and fields of `pi/hob.rs` that the modelled code reads. Each block starts
with a header that gives its type and its length; an end marker closes the
list. -/

namespace HypervisorFirmware.Pi

open Efi

structure Header where
  type : UInt16
  length : UInt16
  deriving DecidableEq, Repr

def hobTypeMemoryAllocation : UInt16 := 0x0002

def hobTypeResourceDescriptor : UInt16 := 0x0003

def hobTypeEndOfHobList : UInt16 := 0xffff

def resourceSystemMemory : UInt32 := 0x00

def Header.read (memory : ByteMemory) (hobHeader : UInt64) : Header where
  type := memory.readUInt16 hobHeader
  length := memory.readUInt16 (hobHeader + 2)

structure ResourceDescription where
  resourceType : UInt32
  physicalStart : UInt64
  resourceLength : UInt64
  deriving DecidableEq, Repr

def ResourceDescription.read (memory : ByteMemory) (hobHeader : UInt64) :
    ResourceDescription where
  resourceType := memory.readUInt32 (hobHeader + 24)
  physicalStart := memory.readUInt64 (hobHeader + 32)
  resourceLength := memory.readUInt64 (hobHeader + 40)

structure MemoryAllocation where
  memoryBaseAddress : UInt64
  memoryLength : UInt64
  memoryType : MemoryType
  deriving DecidableEq, Repr

/-- The source transmutes the block, so a number that is no memory type is
undefined behaviour. -/
def MemoryAllocation.read (memory : ByteMemory) (hobHeader : UInt64) :
    Exec MemoryAllocation :=
  match MemoryType.ofUInt32? (memory.readUInt32 (hobHeader + 40)) with
  | none => .error .undefined
  | some memoryType =>
    .ok
      { memoryBaseAddress := memory.readUInt64 (hobHeader + 24)
        memoryLength := memory.readUInt64 (hobHeader + 32)
        memoryType }

/-! The bytes that a block is about. -/

namespace ResourceDescription

variable (resource : ResourceDescription)

def bottom : Nat := resource.physicalStart.toNat

def top : Nat :=
  resource.bottom + resource.resourceLength.toNat

def Contains (byte : Nat) : Prop :=
  resource.bottom ≤ byte ∧ byte < resource.top

end ResourceDescription

namespace MemoryAllocation

variable (allocation : MemoryAllocation)

def bottom : Nat := allocation.memoryBaseAddress.toNat

def top : Nat :=
  allocation.bottom + allocation.memoryLength.toNat

def Contains (byte : Nat) : Prop :=
  allocation.bottom ≤ byte ∧ byte < allocation.top

end MemoryAllocation

/-! ## Walking the list -/

/-- The loop over the blocks: visit each one before the end marker and go on by
its length. A block of length zero is visited forever. -/
def scan {State : Type} (memory : ByteMemory)
    (visit : Header → UInt64 → State → Exec State) (fuel : Nat) (hob : UInt64)
    (state : State) : Exec State :=
  Loop.run (fun (position : UInt64 × State) => do
    let (hobHeader, state) := position
    let header := Header.read memory hobHeader
    if header.type = hobTypeEndOfHobList then
      return .inr state
    else
      let state ← visit header hobHeader state
      return .inl (hobHeader + header.length.toUInt64, state)) fuel (hob, state)

/-- A block, as far as the modelled code distinguishes them. -/
inductive Hob
  | resourceDescriptor (resource : ResourceDescription)
  | memoryAllocation (allocation : MemoryAllocation)
  | other
  deriving DecidableEq, Repr

def Hob.read (memory : ByteMemory) (header : Header) (hobHeader : UInt64) : Exec Hob :=
  if header.type = hobTypeResourceDescriptor then
    .ok (.resourceDescriptor (ResourceDescription.read memory hobHeader))
  else if header.type = hobTypeMemoryAllocation then do
    let allocation ← MemoryAllocation.read memory hobHeader
    return .memoryAllocation allocation
  else
    .ok .other

def hobList (memory : ByteMemory) : Nat → UInt64 → Exec (List Hob)
  | 0, _ => .error .diverged
  | fuel + 1, hobHeader => do
      let header := Header.read memory hobHeader
      if header.type = hobTypeEndOfHobList then
        return []
      else
        let hob ← Hob.read memory header hobHeader
        let rest ← hobList memory fuel (hobHeader + header.length.toUInt64)
        return hob :: rest

/-- A walk whose visits depend only on the decoded blocks folds over the list of
blocks. -/
theorem scan_eq_foldlM {State : Type} {memory : ByteMemory}
    {visit : Header → UInt64 → State → Exec State} {act : State → Hob → Exec State}
    (decodes : ∀ header hobHeader hob state, Hob.read memory header hobHeader = .ok hob →
      visit header hobHeader state = act state hob)
    {fuel : Nat} {hob : UInt64} {hobs : List Hob}
    (listed : hobList memory fuel hob = .ok hobs) (state : State) :
    scan memory visit fuel hob state = hobs.foldlM act state := by
  unfold scan
  induction fuel generalizing hob hobs state with
  | zero => cases listed
  | succ fuel induction =>
    rw [hobList] at listed
    rw [Loop.run]
    by_cases last : (Header.read memory hob).type = hobTypeEndOfHobList
    · simp only [last, if_true] at listed ⊢
      cases listed
      rfl
    · simp only [last, if_false] at listed ⊢
      cases read : Hob.read memory (Header.read memory hob) hob with
      | error fault => simp [read] at listed
      | ok block =>
        simp only [read, Exec.ok_bind] at listed
        cases rest : hobList memory fuel (hob + (Header.read memory hob).length.toUInt64) with
        | error fault => simp [rest] at listed
        | ok later =>
          simp only [rest, Exec.ok_bind] at listed
          cases listed
          rw [decodes _ _ _ _ read, List.foldlM_cons]
          cases act state block with
          | error fault => rfl
          | ok next => exact induction rest next

end HypervisorFirmware.Pi
