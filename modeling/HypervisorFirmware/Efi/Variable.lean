import Mathlib.Algebra.Group.Nat.Defs
import Mathlib.Logic.Function.Basic
import HypervisorFirmware.Efi.Types
import HypervisorFirmware.Foundation.Execution

/-! # The variable store

`efi/variable.rs`: a table of 64 items, of which the first `variable_count` are in
use. -/

namespace HypervisorFirmware.Efi

abbrev maxVariableItem : Nat := 64

abbrev maxVariableData : Nat := 2048

abbrev VariableName := Vector UInt8 32

abbrev VariableGuid := Vector UInt8 16

abbrev VariableData := Vector UInt8 maxVariableData

abbrev VariableSlot := Fin maxVariableItem

structure VariableItem where
  name : VariableName
  guid : VariableGuid
  attributes : UInt32
  dataSize : Nat
  data : VariableData
  deriving DecidableEq

structure Variable where
  variableCount : Nat
  variableItem : VariableSlot → VariableItem

def wrappingPred (count : Nat) : Nat := (count + (2 ^ 64 - 1)) % 2 ^ 64

namespace Variable

def new : Variable where
  variableCount := 0
  variableItem _ :=
    { name := Vector.replicate 32 0
      guid := Vector.replicate 16 0
      attributes := 0
      dataSize := 0
      data := Vector.replicate maxVariableData 0 }

def slotAt (index : Nat) : Exec VariableSlot :=
  if inside : index < maxVariableItem then .ok ⟨index, inside⟩ else .error .panicked

def setItem (table : Variable) (slot : VariableSlot) (item : VariableItem) : Variable :=
  { table with variableItem := Function.update table.variableItem slot item }

def findFrom (table : Variable) (name : VariableName) (guid : VariableGuid) :
    (remaining index : Nat) → Exec (Option VariableSlot)
  | 0, _ => .ok none
  | remaining + 1, index => do
      let slot ← slotAt index
      let item := table.variableItem slot
      if name = item.name ∧ guid = item.guid then return some slot
      else table.findFrom name guid remaining (index + 1)

def findVariable (table : Variable) (name : VariableName) (guid : VariableGuid) :
    Exec (Option VariableSlot) :=
  table.findFrom name guid table.variableCount 0

/-- The last item is looked for in an empty table only. -/
def findLastVariable (table : Variable) : Exec (Option VariableSlot) :=
  if table.variableCount = 0 then do
    let slot ← slotAt (wrappingPred table.variableCount)
    return some slot
  else return none

def findNewVariable (table : Variable) : Exec (Option VariableSlot × Variable) :=
  if table.variableCount < maxVariableItem then do
    let slot ← slotAt table.variableCount
    return (some slot, { table with variableCount := table.variableCount + 1 })
  else return (none, table)

def getVariable (table : Variable) (name : VariableName) (guid : VariableGuid) :
    Exec (Status × UInt32 × Nat × Option VariableData) := do
  match ← table.findVariable name guid with
  | some slot =>
    let item := table.variableItem slot
    return (.success, item.attributes, item.dataSize, some item.data)
  | none => return (.notFound, 0, 0, none)

/-- The data that a call of `set_variable` is to store. A call without attributes,
size or data deletes. -/
def storedData (attributes : UInt32) (size : Nat) (data : Option VariableData) :
    Option VariableData :=
  if attributes = 0 ∨ size = 0 then none else data

def deleteVariable (table : Variable) (slot : VariableSlot) : Exec (Status × Variable) := do
  let table ← match ← table.findLastVariable with
    | some last => pure (table.setItem slot (table.variableItem last))
    | none => pure table
  return (.success, { table with variableCount := wrappingPred table.variableCount })

def updateVariable (table : Variable) (slot : VariableSlot) (attributes : UInt32)
    (size : Nat) (data : VariableData) : Variable :=
  table.setItem slot
    { table.variableItem slot with attributes := attributes, dataSize := size, data := data }

def addVariable (table : Variable) (item : VariableItem) : Exec (Status × Variable) := do
  match ← table.findNewVariable with
  | (some slot, table) => return (.success, table.setItem slot item)
  | (none, table) => return (.success, table)

variable (table : Variable) (name : VariableName) (guid : VariableGuid) (attributes : UInt32)
  (size : Nat)

/-- The branches of `set_variable`: the item that was found, if any, and the data to
store, unless the call deletes. -/
def changeVariable :
    Option VariableSlot → Option VariableData → Exec (Status × Variable)
  | some slot, none => table.deleteVariable slot
  | some slot, some data => .ok (.success, table.updateVariable slot attributes size data)
  | none, none => .ok (.success, table)
  | none, some data => table.addVariable ⟨name, guid, attributes, size, data⟩

def setVariable (data : Option VariableData) : Exec (Status × Variable) :=
  if size ≤ maxVariableData then do
    let found ← table.findVariable name guid
    table.changeVariable name guid attributes size found (storedData attributes size data)
  else .error .panicked

end Variable

inductive VariableCall
  | getVariable (name : VariableName) (guid : VariableGuid)
  | setVariable (name : VariableName) (guid : VariableGuid) (attributes : UInt32)
      (size : Nat) (data : Option VariableData)

structure VariableResponse where
  status : Status
  attributes : UInt32
  size : Nat
  data : Option VariableData
  deriving DecidableEq

namespace Variable

def step (table : Variable) : VariableCall → Exec (VariableResponse × Variable)
  | .getVariable name guid => do
      let (status, attributes, size, data) ← table.getVariable name guid
      return (⟨status, attributes, size, data⟩, table)
  | .setVariable name guid attributes size data => do
      let (status, next) ← table.setVariable name guid attributes size data
      return (⟨status, 0, 0, none⟩, next)

end Variable

end HypervisorFirmware.Efi
