import HypervisorFirmware.EfiStr.Encoder
import HypervisorFirmware.EfiStr.OsStr
import HypervisorFirmware.Fat.Directory
import HypervisorFirmware.Fat.File

/-! # Opening files by path

`root`, `get_parent_dir_ent` and `open` of `fat.rs`, with the comparison of names.
Paths are lists of characters. -/

namespace HypervisorFirmware.Fat

structure Volume extends Filesystem where
  rootDirSectors : UInt32
  rootCluster : UInt32
  deriving DecidableEq, Repr

structure OFileDirectory where
  dirEnt : DirectoryEntry
  file : Option File
  dir : Option Directory
  pdirEnt : Option DirectoryEntry
  deriving DecidableEq

def OFileDirectory.new (dirEnt : DirectoryEntry) (file : Option File) (dir : Option Directory) :
    OFileDirectory := ⟨dirEnt, file, dir, none⟩

/-! ## Names -/

def compareShortName (name : List Char) (de : DirectoryEntry) : Bool :=
  de.name.toList.takeWhile (· ≠ 0) == EfiStr.utf8 name

def compareName (name : List Char) (de : DirectoryEntry) : Exec Bool := do
  let longName ← EfiStr.OsStr.fromU16SliceWithNul de.longName.toList
  if compareShortName name de then return true
  else EfiStr.OsStr.eqStr longName name

theorem compareName_of_slice {entry : DirectoryEntry} {units : List UInt16}
    (sliced : EfiStr.OsStr.fromU16SliceWithNul entry.longName.toList = .ok units)
    (name : List Char) :
    compareName name entry =
      .ok (compareShortName name entry || units.map UInt16.toNat == name.map Char.toNat) := by
  have sides : (name.map Char.toNat = units.map UInt16.toNat) ↔
      units.map UInt16.toNat = name.map Char.toNat := eq_comm
  rw [compareName, sliced, Exec.ok_bind, EfiStr.OsStr.eqStr, EfiStr.OsStr.compare_eq,
    decide_eq_decide.mpr sides, ← Bool.beq_eq_decide_eq]
  cases compareShortName name entry <;> rfl

section

variable (fs : Filesystem) (device : SectorDevice Unit) (fuel : Nat) (name : List Char)
  (dir : Directory)

def findEntryBody : Exec (Directory ⊕ Except Error DirectoryEntry) := do
  match ← dir.nextEntry fs device fuel with
  | (.error error, _) => return .inr (.error error)
  | (.ok de, dir) =>
    if ← compareName name de then return .inr (.ok de)
    else return .inl dir

def findEntry : Exec (Except Error DirectoryEntry) :=
  Loop.run (findEntryBody fs device fuel name) fuel dir

end

def OFileDirectory.getParentDirEnt (handle : OFileDirectory) (fs : Filesystem)
    (device : SectorDevice Unit) (fuel : Nat) : Exec (Except Error DirectoryEntry) :=
  match handle.dir with
  | none => .ok (.error .notFound)
  | some dir => findEntry fs device fuel ['.', '.'] dir.reset

/-! ## Paths -/

def findSeparator (path : List Char) : Option Nat :=
  (path.findIdx? fun character => character = '/').or
    (path.findIdx? fun character => character = '\\')

def splitPath (residual : List Char) : List Char × List Char :=
  match findSeparator residual with
  | none => (residual, [])
  | some index => (residual.take index, residual.drop (index + 1))

structure OpenState where
  residual : List Char
  currentDir : Directory
  currentDirectoryEntry : DirectoryEntry
  pdirEnt : Option DirectoryEntry

namespace Volume

def rootEntry (cluster : UInt32) : DirectoryEntry where
  name := Vector.replicate (efiFatShortNameLen + 1) 0
  fileType := .directory
  size := 0
  cluster := cluster
  longName := Vector.replicate efiPathStringLength 0
  attr := 0x30

def root (volume : Volume) : Except Error OFileDirectory :=
  match volume.fatType with
  | .fat12 | .fat16 =>
    .ok (.new (rootEntry 0) none (some
      { cluster := none
        sector := volume.firstDataSector - volume.rootDirSectors
        offset := 0
        clusterStart := none }))
  | .fat32 =>
    .ok (.new (rootEntry volume.rootCluster) none (some (getDirectory volume.rootCluster)))
  | .unknown => .error .unsupported

def unwrapRoot (volume : Volume) : Exec OFileDirectory :=
  match volume.root with
  | .error _ => .error .panicked
  | .ok root => .ok root

variable (volume : Volume) (device : SectorDevice Unit) (fuel : Nat)

def openParent (pfileIn : OFileDirectory) : Exec (Except Error OFileDirectory) := do
  match ← pfileIn.getParentDirEnt volume.toFilesystem device fuel with
  | .error error => return .error error
  | .ok pdir =>
    if pdir.fileType = .directory then
      if pdir.cluster = 0 then
        return .ok (← volume.unwrapRoot)
      else
        match pfileIn.pdirEnt with
        | none => .error .panicked
        | some pdirInt => return .ok (.new pdirInt none (some (getDirectory pdir.cluster)))
    else return .error .blockError

def openBody (state : OpenState) : Exec (OpenState ⊕ Except Error OFileDirectory) :=
  let current := OFileDirectory.new state.currentDirectoryEntry none (some state.currentDir)
  if state.residual.length = 0 then
    .ok (.inr (.ok { current with pdirEnt := state.pdirEnt }))
  else
    let (sub, residual) := splitPath state.residual
    if sub.length = 0 then .ok (.inr (.ok current))
    else do
      match ← findEntry volume.toFilesystem device fuel sub state.currentDir with
      | .error .endOfFile => return .inr (.error .notFound)
      | .error error => return .inr (.error error)
      | .ok de =>
        match de.fileType with
        | .directory =>
          if de.cluster = 0 then
            let root ← volume.unwrapRoot
            match root.dir with
            | none => .error .panicked
            | some dir => return .inl ⟨residual, dir, root.dirEnt, none⟩
          else
            return .inl
              ⟨residual, getDirectory de.cluster, de, some state.currentDirectoryEntry⟩
        | .file => return .inr (.ok (.new de (some (getFile de.cluster de.size)) none))

def openPath (pfileIn : OFileDirectory) (path : List Char) :
    Exec (Except Error OFileDirectory) :=
  if path = ['.'] then .ok (.ok pfileIn)
  else if path = ['.', '.'] then volume.openParent device fuel pfileIn
  else do
    let root ← volume.unwrapRoot
    let (pfile, path) :=
      if findSeparator path ≠ some 0 then (pfileIn, path) else (root, path.drop 1)
    match pfile.dir with
    | none => return .error .unsupported
    | some dir =>
      Loop.run (volume.openBody device fuel) fuel ⟨path, dir.reset, pfile.dirEnt, none⟩

end Volume

end HypervisorFirmware.Fat
