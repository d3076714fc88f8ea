import HypervisorFirmware.Fat.Filesystem
import HypervisorFirmware.Foundation.Table

/-! # Directories

The iterator over a directory: `next_entry` and `get_sector` of `fat.rs`. A sector
of a directory has sixteen records, and long names are put together from records
that come before the entry they belong to. Sectors may be unreadable, but a sector
that was read once is read again with the same contents. -/

namespace HypervisorFirmware.Fat

abbrev efiPathStringLength : Nat := 260

abbrev efiFatShortNameLen : Nat := 11

inductive FileType
  | file
  | directory
  deriving DecidableEq, Repr

abbrev LongName := Vector UInt16 efiPathStringLength

structure DirectoryEntry where
  name : Vector UInt8 (efiFatShortNameLen + 1)
  fileType : FileType
  size : UInt32
  cluster : UInt32
  longName : LongName
  attr : UInt8
  deriving DecidableEq

/-! ## Records -/

abbrev Record := Vector UInt8 32

def Sector.record (data : Sector) (index : Fin 16) : Record :=
  Vector.ofFn fun byte => data.get ⟨32 * index.val + byte.val, by omega⟩

def getLen (name : List UInt8) : Nat :=
  match name.reverse.findIdx? fun byte => byte ≠ 32 with
  | some spaces => name.length - spaces
  | none => 1

def getShortName (input : List UInt8) : Vector UInt8 (efiFatShortNameLen + 1) :=
  let base := input.take (getLen (input.take 8))
  let extension := (input.drop 8).take 3
  let name :=
    if input.getD 8 0 ≠ 32 then
      base ++ 46 :: (extension.take (getLen extension)).filter fun byte => byte ≠ 32
    else base
  Vector.ofFn fun index => name.getD index.val 0

namespace Record

variable (record : Record)

def bytes : ByteMemory := fun address => record.toList.getD address.toNat 0

def first : UInt8 := record.get 0

def flags : UInt8 := record.get 11

def sequence : Nat := (record.first &&& 0x1f).toNat

def longNameUnits : List UInt16 :=
  [1, 3, 5, 7, 9, 14, 16, 18, 20, 22, 24, 28, 30].map record.bytes.readUInt16

def copyLongName (longEntry : LongName) : LongName :=
  let block := (record.sequence - 1) * 13
  Vector.ofFn fun index =>
    if block ≤ index.val ∧ index.val < block + 13 then
      record.longNameUnits.getD (index.val - block) 0
    else longEntry.get index

def entry (longEntry : LongName) : DirectoryEntry where
  name := getShortName (record.toList.take efiFatShortNameLen)
  fileType := if record.flags &&& 0x10 = 0x10 then .directory else .file
  cluster :=
    (record.bytes.readUInt16 20).toUInt32 <<< 16 ||| (record.bytes.readUInt16 26).toUInt32
  size := record.bytes.readUInt32 28
  longName := longEntry
  attr := record.flags

end Record

/-! ## The iterator -/

structure Directory where
  cluster : Option UInt32
  sector : UInt32
  offset : Nat
  clusterStart : Option UInt32
  deriving DecidableEq, Repr

def getDirectory (cluster : UInt32) : Directory where
  cluster := some cluster
  sector := 0
  offset := 0
  clusterStart := some cluster

inductive Scanned
  | endOfFile
  | entry (entry : DirectoryEntry) (offset : Nat)
  | exhausted (longEntry : LongName)

def visitRecord (data : Sector) (index : Fin 16) (longEntry : LongName) :
    Exec (LongName ⊕ Scanned) :=
  let record := data.record index
  if record.first = 0 then .ok (.inr .endOfFile)
  else if record.first = 0xe5 then .ok (.inl longEntry)
  else if record.flags = 0x0f then
    -- The block of a sequence number outside of 1 to 20 is no range of the array.
    if record.sequence = 0 ∨ 20 < record.sequence then .error .panicked
    else .ok (.inl (record.copyLongName longEntry))
  else .ok (.inr (.entry (record.entry longEntry) (index.val + 1)))

namespace Directory

def reset (dir : Directory) : Directory :=
  { dir with cluster := dir.clusterStart, offset := 0, sector := 0 }

variable (fs : Filesystem) (device : SectorDevice Unit)

def getSector (dir : Directory) : Exec (Except Error UInt32 × Directory) :=
  match dir.cluster with
  | none => .ok (.ok dir.sector, dir)
  | some cluster =>
    if dir.sector ≥ fs.sectorsPerCluster then
      match fs.nextCluster device cluster () with
      | .error fault => .error fault
      | .ok (.error error, _) => .ok (.error error, dir)
      | .ok (.ok newCluster, _) =>
        let dir := { dir with cluster := some newCluster, sector := 0, offset := 0 }
        .ok (.ok (dir.sector + fs.firstSectorOfCluster newCluster), dir)
    else .ok (.ok (dir.sector + fs.firstSectorOfCluster cluster), dir)

def nextEntryBody :
    Directory × LongName →
      Exec (Directory × LongName ⊕ Except Error DirectoryEntry × Directory)
  | (dir, longEntry) => do
      match ← dir.getSector fs device with
      | (.error error, dir) => return .inr (.error error, dir)
      | (.ok sector, dir) =>
        match fs.read device sector.toUInt64 () with
        | (none, _) => return .inr (.error .blockError, dir)
        | (some data, _) =>
          match ← Table.scanFrom (visitRecord data) .exhausted (16 - dir.offset) dir.offset
            longEntry with
          | .endOfFile => return .inr (.error .endOfFile, dir)
          | .entry entry offset => return .inr (.ok entry, { dir with offset := offset })
          | .exhausted longEntry =>
            return .inl ({ dir with sector := dir.sector + 1, offset := 0 }, longEntry)

def nextEntry (fuel : Nat) (dir : Directory) : Exec (Except Error DirectoryEntry × Directory) :=
  Loop.run (nextEntryBody fs device) fuel (dir, Vector.replicate efiPathStringLength 0)

end Directory

end HypervisorFirmware.Fat
