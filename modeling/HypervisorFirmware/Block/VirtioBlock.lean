import Mathlib.Logic.Function.Basic
import HypervisorFirmware.Foundation.Execution

/-! # The virtio block driver

`block.rs` hands each request to the device as a chain of three descriptors: header,
data and footer. It puts the head of the chain into the available ring, counts the
index of the ring up and waits until the index of the used ring, which the device
counts up, is the same.

`request` is cut here at the points between which the device may run: after each
descriptor, before and after the index of the available ring is written, and at each
look at the used ring. -/

namespace HypervisorFirmware.Block

/-! ## The queue -/

abbrev queueSize : Nat := 16

def slotOf (index : Nat) : Fin queueSize := ⟨index % queueSize, Nat.mod_lt index (by decide)⟩

def virtqDescFNext : UInt16 := 1

def virtqDescFWrite : UInt16 := 2

structure Desc where
  addr : UInt64
  length : UInt32
  flags : UInt16
  next : UInt16
  deriving DecidableEq

structure AvailRing where
  idx : UInt16
  ring : Fin queueSize → UInt16

structure UsedElem where
  id : UInt32
  len : UInt32
  deriving DecidableEq

structure UsedRing where
  idx : UInt16
  ring : Fin queueSize → UsedElem

structure DriverState where
  descriptors : Fin queueSize → Desc
  avail : AvailRing
  used : UsedRing
  nextHead : Nat

def DriverState.default : DriverState where
  descriptors _ := ⟨0, 0, 0, 0⟩
  avail := ⟨0, fun _ => 0⟩
  used := ⟨0, fun _ => ⟨0, 0⟩⟩
  nextHead := 0

def DriverState.modifyDesc (state : DriverState) (index : Nat) (change : Desc → Desc) :
    Exec DriverState :=
  if inside : index < queueSize then
    .ok { state with
      descriptors := Function.update state.descriptors ⟨index, inside⟩
        (change (state.descriptors ⟨index, inside⟩)) }
  else .error .panicked

/-! ## Requests -/

inductive Error
  | blockIOError
  | blockNotSupported
  deriving DecidableEq, Repr

inductive RequestType
  | read
  | write
  | flush
  deriving DecidableEq, Repr

def RequestType.toUInt32 : RequestType → UInt32
  | .read => 0
  | .write => 1
  | .flush => 4

structure BlockRequestHeader where
  request : UInt32
  reserved : UInt32
  sector : UInt64
  deriving DecidableEq

structure Slice where
  address : UInt64
  length : Nat
  deriving DecidableEq

/-- The arguments of a call of `request`, and where its header and its footer lie. -/
structure Call where
  sector : UInt64
  data : Option Slice
  request : RequestType
  headerAddress : UInt64
  footerAddress : UInt64
  deriving DecidableEq

def Call.Valid (call : Call) : Prop :=
  call.request ≠ .flush → ∃ slice, call.data = some slice ∧ slice.length = 512

def Call.asserts (call : Call) : Bool :=
  call.request == .flush || call.data.any fun slice => slice.length == 512

theorem Call.Valid.asserts {call : Call} (valid : call.Valid) : call.asserts = true := by
  by_cases isFlush : call.request = .flush
  · simp [Call.asserts, isFlush]
  · rcases valid isFlush with ⟨slice, isData, length⟩
    simp [Call.asserts, isData, length]

def headerDesc (call : Call) (next : Nat) : Desc where
  addr := call.headerAddress
  length := 16
  flags := virtqDescFNext
  next := UInt16.ofNat next

/-- The data descriptor; a flush leaves its address and its length as they were. -/
def dataDesc (call : Call) (next : Nat) (old : Desc) : Desc where
  addr := if call.request ≠ .flush then (call.data.elim 0 Slice.address) else old.addr
  length := if call.request ≠ .flush then 512 else old.length
  flags := virtqDescFNext ||| if call.request = .read then virtqDescFWrite else 0
  next := UInt16.ofNat next

def footerDesc (call : Call) : Desc where
  addr := call.footerAddress
  length := 1
  flags := virtqDescFWrite
  next := 0

def resultOf (status : UInt8) : Except Error Unit :=
  if status = 0 then .ok ()
  else if status = 1 then .error .blockIOError
  else .error .blockNotSupported

/-! ## The driver and the device -/

/-- Where the driver is in `request`: about to write the header descriptor, the data
descriptor, the footer descriptor, the ring, its index, the next head, about to notify
the device, or waiting for it. -/
inductive Point
  | idle
  | header
  | data
  | footer
  | ring
  | index
  | head
  | notify
  | wait
  deriving DecidableEq, Repr

/-- The driver and its queue, with the call that it works on, the local variable
`next_desc`, the header and the status in the footer. `returned` counts the calls that
have returned. -/
structure System where
  state : DriverState
  point : Point
  call : Call
  nextDesc : Nat
  header : BlockRequestHeader
  status : UInt8
  returned : Nat

def System.initial : System where
  state := .default
  point := .idle
  call := ⟨0, none, .flush, 0, 0⟩
  nextDesc := 0
  header := ⟨0, 0, 0⟩
  status := 0
  returned := 0

/-- `request` is called, the driver takes a step, or the device completes the request
that it was given first. -/
inductive Action
  | request (call : Call)
  | drive
  | complete (status : UInt8) (length : UInt32)

def Action.Valid : Action → Prop
  | .request call => call.Valid
  | .drive | .complete .. => True

def begin (system : System) (call : Call) : Exec System :=
  if system.point = .idle then
    if call.asserts then
      .ok { system with
        point := .header
        call
        header := ⟨call.request.toUInt32, 0, call.sector⟩
        status := 0 }
    else .error .panicked
  else .ok system

/-- A step of the driver, and what `request` returns if this is its last one. -/
def drive (system : System) : Exec (Option (Except Error Unit) × System) :=
  let state := system.state
  match system.point with
  | .idle => .ok (none, system)
  | .header => do
      let nextDesc := (state.nextHead + 1) % queueSize
      let state ← state.modifyDesc state.nextHead fun _ => headerDesc system.call nextDesc
      return (none, { system with state, nextDesc, point := .data })
  | .data => do
      let nextDesc := (system.nextDesc + 1) % queueSize
      let state ← state.modifyDesc system.nextDesc (dataDesc system.call nextDesc)
      return (none, { system with state, nextDesc, point := .footer })
  | .footer => do
      let state ← state.modifyDesc system.nextDesc fun _ => footerDesc system.call
      return (none, { system with state, point := .ring })
  | .ring =>
    let slot := slotOf state.avail.idx.toNat
    let ring := Function.update state.avail.ring slot (UInt16.ofNat state.nextHead)
    .ok (none, { system with
      state := { state with avail := { state.avail with ring } }
      point := .index })
  | .index =>
    let idx := state.avail.idx + 1
    .ok (none, { system with
      state := { state with avail := { state.avail with idx } }
      point := .head })
  | .head =>
    .ok (none, { system with
      state := { state with nextHead := (system.nextDesc + 1) % queueSize }
      point := .notify })
  | .notify => .ok (none, { system with point := .wait })
  | .wait =>
    if state.used.idx ≠ state.avail.idx then .ok (none, system)
    else
      .ok (some (resultOf system.status),
        { system with point := .idle, returned := system.returned + 1 })

/-- The device has a request while the indices differ. It returns the head of the chain
in the used ring, writes the status and counts the index up. -/
def complete (system : System) (status : UInt8) (length : UInt32) : System :=
  let state := system.state
  if state.used.idx ≠ state.avail.idx then
    let slot := slotOf state.used.idx.toNat
    let ring := Function.update state.used.ring slot ⟨(state.avail.ring slot).toUInt32, length⟩
    { system with
      state := { state with used := { idx := state.used.idx + 1, ring } }
      status }
  else system

def step (system : System) : Action → Exec (Option (Except Error Unit) × System)
  | .request call => do
      let system ← begin system call
      return (none, system)
  | .drive => drive system
  | .complete status length => .ok (none, complete system status length)

/-- A run of the driver and the device, in any order of their steps. -/
def run : System → List Action → Exec (List (Option (Except Error Unit)) × System) :=
  Machine.run step

end HypervisorFirmware.Block
