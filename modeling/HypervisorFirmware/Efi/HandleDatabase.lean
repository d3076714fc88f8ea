import Mathlib.Logic.Function.Basic
import HypervisorFirmware.Efi.Types
import HypervisorFirmware.Foundation.Table

/-! # The handle database

`efi/handle_database.rs`: a table of 32 handles, each with a table of 32 protocols.
The entries in use come first in both tables. -/

namespace HypervisorFirmware.Efi

/-- The sixteen bytes of a GUID, which is all that its comparison reads. -/
abbrev Guid := Vector UInt8 16

abbrev maxProtocolStruct : Nat := 32

abbrev maxHandleStruct : Nat := 32

def handleSignature : UInt32 := 0x4c444849

abbrev ProtocolSlot := Fin maxProtocolStruct

abbrev HandleSlot := Fin maxHandleStruct

/-- A handle is null or points to an entry of the handle table. -/
abbrev Handle := Option HandleSlot

structure ProtocolStruct where
  guid : Guid
  interface : UInt64
  deriving DecidableEq

def ProtocolStruct.default : ProtocolStruct := ⟨Vector.replicate 16 0, 0⟩

structure ProtocolHandle where
  signature : UInt32
  protocolCount : Nat
  protocolStruct : ProtocolSlot → ProtocolStruct

structure HandleDatabase where
  protocolHandleCount : Nat
  protocolHandle : HandleSlot → ProtocolHandle

namespace HandleDatabase

def new : HandleDatabase where
  protocolHandleCount := 0
  protocolHandle _ :=
    { signature := 0
      protocolCount := 0
      protocolStruct := fun _ => .default }

def modify (db : HandleDatabase) (slot : HandleSlot)
    (change : ProtocolHandle → ProtocolHandle) : HandleDatabase :=
  { db with
    protocolHandle := Function.update db.protocolHandle slot (change (db.protocolHandle slot)) }

/-! ## Entries of the tables -/

section

variable (db : HandleDatabase)

def getHandle : Handle → Except Status HandleSlot
  | none => .error .notFound
  | some slot =>
    if (db.protocolHandle slot).signature ≠ handleSignature then .error .invalidParameter
    else .ok slot

def getNewHandle : Except Status HandleSlot × HandleDatabase :=
  if room : db.protocolHandleCount < maxHandleStruct then
    let slot : HandleSlot := ⟨db.protocolHandleCount, room⟩
    let db := { db with protocolHandleCount := db.protocolHandleCount + 1 }
    (.ok slot, db.modify slot fun handle =>
      { handle with signature := handleSignature, protocolCount := 0 })
  else (.error .outOfResources, db)

def getProtocol (slot : HandleSlot) (guid : Guid) : Exec (Option ProtocolSlot) :=
  let handle := db.protocolHandle slot
  if handle.signature ≠ handleSignature then .error .panicked
  else
    Table.scan
      (fun index _ =>
        if guid = (handle.protocolStruct index).guid then .ok (.inr (some index))
        else .ok (.inl ()))
      (fun _ => none) handle.protocolCount ()

def getNewProtocol (slot : HandleSlot) : Except Status ProtocolSlot × HandleDatabase :=
  if room : (db.protocolHandle slot).protocolCount < maxProtocolStruct then
    let index : ProtocolSlot := ⟨(db.protocolHandle slot).protocolCount, room⟩
    (.ok index, db.modify slot fun handle =>
      { handle with
        protocolCount := handle.protocolCount + 1
        protocolStruct := Function.update handle.protocolStruct index .default })
  else (.error .outOfResources, db)

def setProtocol (slot : HandleSlot) (index : ProtocolSlot) (protocol : ProtocolStruct) :
    HandleDatabase :=
  db.modify slot fun handle =>
    { handle with protocolStruct := Function.update handle.protocolStruct index protocol }

end

/-! ## Installation -/

def currentHandle (db : HandleDatabase) (handle : Handle) :
    Except Status HandleSlot × HandleDatabase :=
  match db.getHandle handle with
  | .ok slot => (.ok slot, db)
  | .error .notFound => db.getNewHandle
  | .error status => (.error status, db)

def installProtocol (db : HandleDatabase) (handle : Handle) (guid : Guid)
    (interface : UInt64) : Exec ((Status × Handle) × HandleDatabase) :=
  match db.currentHandle handle with
  | (.error status, db) => .ok ((status, none), db)
  | (.ok slot, db) => do
      match ← db.getProtocol slot guid with
      | some _ => return ((.invalidParameter, none), db)
      | none =>
        match db.getNewProtocol slot with
        | (.error status, db) => return ((status, none), db)
        | (.ok index, db) =>
          return ((.success, some slot), db.setProtocol slot index ⟨guid, interface⟩)

def addProtocols (slot : HandleSlot) :
    List ProtocolStruct → HandleDatabase → Exec HandleDatabase
  | [], db => .ok db
  | protocol :: rest, db =>
    match db.getNewProtocol slot with
    | (.error _, _) => .error .panicked
    | (.ok index, db) => addProtocols slot rest (db.setProtocol slot index protocol)

def anyInstalled (db : HandleDatabase) (slot : HandleSlot) :
    List ProtocolStruct → Exec Bool
  | [] => .ok false
  | protocol :: rest => do
      match ← db.getProtocol slot protocol.guid with
      | some _ => return true
      | none => db.anyInstalled slot rest

def installMultipleProtocol (db : HandleDatabase) (handle : Handle) (count : Nat)
    (pair : Vector ProtocolStruct 8) : Exec ((Status × Handle) × HandleDatabase) :=
  let pairs := pair.toList.take count
  if count = 0 ∨ 8 < count then .error .panicked
  else
    match db.getHandle handle with
    | .ok slot => do
        if (db.protocolHandle slot).protocolCount > maxProtocolStruct - count then
          return ((.outOfResources, none), db)
        else if ← db.anyInstalled slot pairs then
          return ((.invalidParameter, none), db)
        else
          let db ← addProtocols slot pairs db
          return ((.success, some slot), db)
    | .error .notFound =>
      match db.getNewHandle with
      | (.error status, db) => .ok ((status, none), db)
      | (.ok slot, db) => do
          let db ← addProtocols slot pairs db
          return ((.success, some slot), db)
    | .error status => .ok ((status, none), db)

/-! ## Queries -/

def handleProtocol (db : HandleDatabase) (slot : HandleSlot) (guid : Guid) :
    Exec (Status × UInt64) :=
  if (db.protocolHandle slot).signature ≠ handleSignature then .ok (.invalidParameter, 0)
  else do
    match ← db.getProtocol slot guid with
    | none => return (.notFound, 0)
    | some index => return (.success, ((db.protocolHandle slot).protocolStruct index).interface)

def locateProtocol (db : HandleDatabase) (guid : Guid) : Exec (Status × UInt64) := do
  let found ← Table.scan
    (fun slot _ => do
      match ← db.getProtocol slot guid with
      | none => return .inl ()
      | some index =>
        return .inr (some ((db.protocolHandle slot).protocolStruct index).interface))
    (fun _ => none) db.protocolHandleCount ()
  match found with
  | some interface => return (.success, interface)
  | none => return (.notFound, 0)

def locateHandleCount (db : HandleDatabase) (guid : Guid) : Exec (Except Status Nat) :=
  Table.scan
    (fun slot count => do
      match ← db.getProtocol slot guid with
      | none => return .inl count
      | some _ => return .inl (count + 1))
    (fun count => if count = 0 then .error .notFound else .ok count)
    db.protocolHandleCount 0

abbrev HandleBuffer := Nat → Handle

def handleSize : Nat := 8

variable (db : HandleDatabase) (guid : Guid)

def locateHandleCopy (buffer : HandleBuffer) (bufferSize : Nat) : Exec HandleBuffer :=
  Table.scan
    (fun slot (count, buffer) => do
      match ← db.getProtocol slot guid with
      | none => return .inl (count, buffer)
      | some _ =>
        if bufferSize ≥ (count + 1) * handleSize ∧ count < maxHandleStruct then
          return .inl (count + 1, Function.update buffer count (some slot))
        else .error .panicked)
    Prod.snd db.protocolHandleCount (0, buffer)

def locateHandleBuffer (pool : Except Status HandleBuffer) :
    Exec (Except Status (Nat × HandleBuffer)) := do
  match ← db.locateHandleCount guid with
  | .error status => return .error status
  | .ok count =>
    match pool with
    | .error status => return .error status
    | .ok buffer =>
      let buffer ← db.locateHandleCopy guid buffer (count * handleSize)
      return .ok (count, buffer)

def locateHandle (bufferSize : Nat) (buffer : HandleBuffer) :
    Exec ((Status × Nat) × HandleBuffer) := do
  match ← db.locateHandleCount guid with
  | .error status => return ((status, 0), buffer)
  | .ok count =>
    let realSize := count * handleSize
    if bufferSize < realSize then return ((.bufferTooSmall, realSize), buffer)
    else
      let buffer ← db.locateHandleCopy guid buffer realSize
      return ((.success, realSize), buffer)

end HandleDatabase

end HypervisorFirmware.Efi
