import Mathlib.Algebra.Group.Nat.Defs
import HypervisorFirmware.Foundation.ByteMemory
import HypervisorFirmware.Foundation.Execution

/-! # The FAT file system

The part of `fat.rs` that follows cluster chains: the volume description, reads of
single sectors, and `next_cluster` for the three FAT widths. All `u32` and `u64`
arithmetic wraps. -/

namespace HypervisorFirmware.Fat

inductive Error
  | blockError
  | unsupported
  | notFound
  | endOfFile
  | invalidOffset
  deriving DecidableEq, Repr

inductive FatType
  | unknown
  | fat12
  | fat16
  | fat32
  deriving DecidableEq, Repr

/-! ## Sectors -/

abbrev Sector := Vector UInt8 512

def Sector.bytes (data : Sector) : ByteMemory := fun address =>
  data.toList.getD address.toNat 0

def Sector.ofBytes (bytes : List UInt8) : Sector :=
  ⟨((bytes ++ List.replicate 512 0).take 512).toArray, by
    rw [List.size_toArray, List.length_take, List.length_append, List.length_replicate]
    omega⟩

theorem Sector.getElem_ofBytes (bytes : List UInt8) {index : Nat} (inside : index < 512) :
    (Sector.ofBytes bytes)[index] = bytes.getD index 0 := by
  rw [ofBytes, Vector.getElem_mk, List.getElem_toArray, List.getElem_take, List.getElem_append,
    List.getD]
  split_ifs with early
  · rw [List.getElem?_eq_getElem early, Option.getD_some]
  · rw [List.getElem_replicate, List.getElem?_eq_none (Nat.not_lt.mp early), Option.getD_none]

/-- A device whose sectors have fixed contents, and whose reads may fail at any
time, as its state decides. -/
structure SectorDevice (State : Type) where
  content : UInt64 → Sector
  fails : UInt64 → State → Bool × State

def SectorDevice.read {State : Type} (device : SectorDevice State) (sector : UInt64)
    (state : State) : Option Sector × State :=
  match device.fails sector state with
  | (true, state) => (none, state)
  | (false, state) => (some (device.content sector), state)

def SectorDevice.reliable (content : UInt64 → Sector) : SectorDevice Unit where
  content := content
  fails _ _ := (false, ())

/-! ## Volumes -/

structure Filesystem where
  start : UInt64
  last : UInt64
  bytesPerSector : UInt32
  fatType : FatType
  sectorsPerCluster : UInt32
  firstFatSector : UInt32
  firstDataSector : UInt32
  deriving DecidableEq, Repr

namespace Filesystem

variable {State : Type}

def read (fs : Filesystem) (device : SectorDevice State) (sector : UInt64)
    (state : State) : Option Sector × State :=
  if fs.start + sector > fs.last then (none, state)
  else device.read (fs.start + sector) state

def lookupFat (fs : Filesystem) (device : SectorDevice State) (fatOffset : UInt32)
    (decode : Sector → UInt32 → Exec (Except Error UInt32)) (state : State) :
    Exec (Except Error UInt32 × State) :=
  if fs.bytesPerSector = 0 then
    -- The division panics.
    .error .panicked
  else
    let fatSector := fs.firstFatSector + fatOffset / fs.bytesPerSector
    let offset := fatOffset % fs.bytesPerSector
    match fs.read device fatSector.toUInt64 state with
    | (none, state) => .ok (.error .blockError, state)
    | (some data, state) => do
        let next ← decode data offset
        return (next, state)

def entry (nextCluster endOfChain : UInt32) : Except Error UInt32 :=
  if nextCluster ≥ endOfChain then .error .endOfFile else .ok nextCluster

def decode12 (cluster : UInt32) (data : Sector) (offset : UInt32) :
    Exec (Except Error UInt32) :=
  if offset.toNat + 2 ≤ 512 then
    let nextClusterRaw := (Sector.bytes data).readUInt16 offset.toUInt64
    let nextCluster :=
      if cluster % 2 = 0 then nextClusterRaw &&& 0xfff else nextClusterRaw >>> 4
    .ok (entry nextCluster.toUInt32 0xff8)
  else
    -- The entry is read through a raw pointer, which leaves the buffer.
    .error .undefined

def decode16 (data : Sector) (offset : UInt32) : Exec (Except Error UInt32) :=
  if offset / 2 < 256 then
    let nextCluster := (Sector.bytes data).readUInt16 (2 * (offset / 2).toUInt64)
    .ok (entry nextCluster.toUInt32 0xfff8)
  else .error .panicked

def decode32 (data : Sector) (offset : UInt32) : Exec (Except Error UInt32) :=
  if offset / 4 < 128 then
    let nextClusterRaw := (Sector.bytes data).readUInt32 (4 * (offset / 4).toUInt64)
    .ok (entry (nextClusterRaw &&& 0x0fffffff) 0x0ffffff8)
  else .error .panicked

def nextCluster (fs : Filesystem) (device : SectorDevice State) (cluster : UInt32)
    (state : State) : Exec (Except Error UInt32 × State) :=
  match fs.fatType with
  | .fat12 => fs.lookupFat device (cluster + cluster / 2) (decode12 cluster) state
  | .fat16 => fs.lookupFat device (cluster * 2) decode16 state
  | .fat32 => fs.lookupFat device (cluster * 4) decode32 state
  | .unknown => .ok (.error .unsupported, state)

def firstSectorOfCluster (fs : Filesystem) (cluster : UInt32) : UInt32 :=
  (cluster - 2) * fs.sectorsPerCluster + fs.firstDataSector

/-! ## Contents of a chain -/

def successor (fs : Filesystem) (content : UInt64 → Sector) (cluster : UInt32) :
    Option UInt32 :=
  match fs.nextCluster (.reliable content) cluster () with
  | .ok (.ok next, ()) => some next
  | _ => none

def clusterAt (fs : Filesystem) (content : UInt64 → Sector) (start : UInt32) :
    Nat → Option UInt32
  | 0 => some start
  | index + 1 => do
      let cluster ← fs.clusterAt content start index
      fs.successor content cluster

def clusterSector (fs : Filesystem) (content : UInt64 → Sector) (cluster : UInt32)
    (offset : UInt64) : Option Sector :=
  (fs.read (.reliable content)
    ((fs.firstSectorOfCluster cluster).toUInt64 + offset) ()).1

def fileSector (fs : Filesystem) (content : UInt64 → Sector) (start : UInt32)
    (index : Nat) : Option Sector := do
  let cluster ← fs.clusterAt content start (index / fs.sectorsPerCluster.toNat)
  fs.clusterSector content cluster
    (UInt64.ofNat (index % fs.sectorsPerCluster.toNat))

/-! ## Reads that succeed tell the contents -/

variable {fs : Filesystem} {data : Sector} {state : State} {fatOffset : UInt32} {fault : Fault}

theorem nextCluster_of_successor {content : UInt64 → Sector}
    {cluster next : UInt32} (succeeds : fs.successor content cluster = some next) :
    fs.nextCluster (.reliable content) cluster () = .ok (.ok next, ()) := by
  rw [successor] at succeeds
  split at succeeds
  · rename_i found
    cases succeeds
    exact found
  · cases succeeds

theorem read_eq_some {device : SectorDevice State} {sector : UInt64} {next : State}
    (succeeded : fs.read device sector state = (some data, next)) :
    fs.read (.reliable device.content) sector () = (some data, ()) := by
  unfold read SectorDevice.read at succeeded ⊢
  split_ifs at succeeded ⊢
  · cases succeeded
  · cases outcome : device.fails (fs.start + sector) state with
    | mk failed after =>
      cases failed with
      | true => simp [outcome] at succeeded
      | false =>
        simp only [outcome, Prod.mk.injEq] at succeeded
        simp [SectorDevice.reliable, succeeded.1]

theorem lookupFat_eq_ok {device : SectorDevice State}
    {decode : Sector → UInt32 → Exec (Except Error UInt32)}
    {next : State} {cluster : UInt32}
    (succeeded : fs.lookupFat device fatOffset decode state = .ok (.ok cluster, next)) :
    fs.lookupFat (.reliable device.content) fatOffset decode () = .ok (.ok cluster, ()) := by
  unfold lookupFat at succeeded ⊢
  split_ifs at succeeded ⊢
  simp only at succeeded ⊢
  cases reading : fs.read device
      (fs.firstFatSector + fatOffset / fs.bytesPerSector).toUInt64 state with
  | mk data after =>
    rw [reading] at succeeded
    cases data with
    | none => cases succeeded
    | some data =>
      rw [read_eq_some reading]
      simp only at succeeded ⊢
      cases decoded : decode data (fatOffset % fs.bytesPerSector) with
      | error fault => simp [decoded] at succeeded
      | ok result =>
        simp only [decoded, Exec.ok_bind] at succeeded ⊢
        cases succeeded
        rfl

theorem successor_of_nextCluster {device : SectorDevice State}
    {cluster following : UInt32} {next : State}
    (succeeded : fs.nextCluster device cluster state = .ok (.ok following, next)) :
    fs.successor device.content cluster = some following := by
  have reliable : fs.nextCluster (.reliable device.content) cluster () =
      .ok (.ok following, ()) := by
    revert succeeded
    unfold nextCluster
    cases fs.fatType with
    | fat12 => exact lookupFat_eq_ok
    | fat16 => exact lookupFat_eq_ok
    | fat32 => exact lookupFat_eq_ok
    | unknown => intro succeeded; cases succeeded
  rw [successor, reliable]

/-! ## Lookups return -/

/-- The faults of a table lookup: it ends, and in tables of 512-byte sectors only a
FAT12 entry can leave its sector. -/
structure LookupFault (fs : Filesystem) (fault : Fault) : Prop where
  ends : fault ≠ .diverged
  leaves : fs.bytesPerSector = 512 → fs.fatType = .fat12

theorem offset_in_sector (fatOffset width : UInt32) (entries : Nat)
    (fills : entries * width.toNat = 512) :
    (fatOffset % 512 / width).toNat < entries := by
  rw [UInt32.toNat_div, UInt32.toNat_mod]
  apply Nat.div_lt_of_lt_mul
  rw [Nat.mul_comm, fills]
  exact Nat.mod_lt _ (by decide)

theorem lookupFat_fault {device : SectorDevice State}
    {decode : Sector → UInt32 → Exec (Except Error UInt32)}
    (faulted : fs.lookupFat device fatOffset decode state = .error fault) :
    (fs.bytesPerSector = 0 ∧ fault = .panicked) ∨
      ∃ data, decode data (fatOffset % fs.bytesPerSector) = .error fault := by
  unfold lookupFat at faulted
  split_ifs at faulted with zero
  · left
    cases faulted
    exact ⟨zero, rfl⟩
  · right
    simp only at faulted
    split at faulted
    · cases faulted
    · rename_i data after _
      refine ⟨data, ?_⟩
      cases decoded : decode data (fatOffset % fs.bytesPerSector) with
      | error other => simpa [decoded] using faulted
      | ok result => simp [decoded] at faulted

theorem decode12_fault {cluster offset : UInt32}
    (faulted : decode12 cluster data offset = .error fault) : fault = .undefined := by
  unfold decode12 at faulted
  split at faulted
  · cases faulted
  · cases faulted
    rfl

theorem decode16_fault {offset : UInt32} (faulted : decode16 data offset = .error fault) :
    fault = .panicked ∧ ¬(offset / 2 < 256) := by
  unfold decode16 at faulted
  split_ifs at faulted with inside
  cases faulted
  exact ⟨rfl, inside⟩

theorem decode32_fault {offset : UInt32} (faulted : decode32 data offset = .error fault) :
    fault = .panicked ∧ ¬(offset / 4 < 128) := by
  unfold decode32 at faulted
  split_ifs at faulted with inside
  cases faulted
  exact ⟨rfl, inside⟩

theorem nextCluster_fault {device : SectorDevice State} {cluster : UInt32}
    (faulted : fs.nextCluster device cluster state = .error fault) :
    fs.LookupFault fault := by
  unfold nextCluster at faulted
  split at faulted
  · rename_i width
    refine ⟨?_, fun _ => width⟩
    rcases lookupFat_fault faulted with ⟨_, rfl⟩ | ⟨data, decoded⟩
    · decide
    · rw [decode12_fault decoded]
      decide
  · rcases lookupFat_fault faulted with ⟨zero, rfl⟩ | ⟨data, decoded⟩
    · exact ⟨by decide, fun sized => by simp [sized] at zero⟩
    · rcases decode16_fault decoded with ⟨rfl, outside⟩
      refine ⟨by decide, fun sized => absurd ?_ outside⟩
      rw [sized]
      exact UInt32.lt_iff_toNat_lt.mpr (offset_in_sector _ 2 256 rfl)
  · rcases lookupFat_fault faulted with ⟨zero, rfl⟩ | ⟨data, decoded⟩
    · exact ⟨by decide, fun sized => by simp [sized] at zero⟩
    · rcases decode32_fault decoded with ⟨rfl, outside⟩
      refine ⟨by decide, fun sized => absurd ?_ outside⟩
      rw [sized]
      exact UInt32.lt_iff_toNat_lt.mpr (offset_in_sector _ 4 128 rfl)
  · cases faulted

end Filesystem

end HypervisorFirmware.Fat
