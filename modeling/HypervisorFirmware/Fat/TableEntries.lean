import Mathlib.Algebra.Group.Nat.Defs
import HypervisorFirmware.Foundation.PackedBits
import HypervisorFirmware.Fat.Filesystem

/-! # The table as a packed array

A FAT is an array of 12, 16 or 32-bit entries, packed into its sectors without
regard to where one sector ends. `next_cluster` works out the sector and the offset
of an entry in `u32` and reads one sector. -/

namespace HypervisorFirmware.Fat

namespace FatType

def stride : FatType → Nat
  | .unknown => 0
  | .fat12 => 12
  | .fat16 => 16
  | .fat32 => 32

/-- The bits of an entry that count. The top four of a FAT32 entry do not. -/
def width : FatType → Nat
  | .unknown => 0
  | .fat12 => 12
  | .fat16 => 16
  | .fat32 => 28

def endOfChain : FatType → Nat
  | .unknown => 0
  | .fat12 => 0xff8
  | .fat16 => 0xfff8
  | .fat32 => 0x0ffffff8

def byteOffset (fatType : FatType) (cluster : UInt32) : Nat :=
  fatType.stride * cluster.toNat / 8

/-- What an entry with this value says: the next cluster, or the end of the chain. -/
def meaning (fatType : FatType) (value : Nat) : Except Error UInt32 :=
  if fatType.endOfChain ≤ value then .error .endOfFile else .ok (UInt32.ofNat value)

end FatType

namespace Filesystem

section

variable (fs : Filesystem) (content : UInt64 → Sector)

def tableByte (index : Nat) : UInt8 :=
  (content (UInt64.ofNat (fs.start.toNat + fs.firstFatSector.toNat + index / 512))).toList.getD
    (index % 512) 0

def tableEntry (cluster : UInt32) : Nat :=
  packed (fs.tableByte content) (fs.fatType.stride * cluster.toNat) fs.fatType.width

def tableSuccessor (cluster : UInt32) : Except Error UInt32 :=
  fs.fatType.meaning (fs.tableEntry content cluster)

end

/-- A volume of 512-byte sectors, with a table of this many sectors that has an
entry for the cluster. -/
structure EntryInTable (fs : Filesystem) (sectorsPerFat cluster : UInt32) : Prop where
  sized : fs.bytesPerSector = 512
  known : fs.fatType ≠ .unknown
  inVolume : fs.start.toNat + fs.firstFatSector.toNat + sectorsPerFat.toNat ≤ fs.last.toNat + 1
  inTable : fs.fatType.stride * (cluster.toNat + 1) ≤ 8 * (512 * sectorsPerFat.toNat)

/-- The offset and the sector of the entry are `u32` numbers, and the entry does not
begin in the last byte of a sector. -/
structure EntryReachable (fs : Filesystem) (cluster : UInt32) : Prop where
  offset : fs.fatType.byteOffset cluster < 2 ^ 32
  sector : fs.firstFatSector.toNat + fs.fatType.byteOffset cluster / 512 < 2 ^ 32
  whole : fs.fatType = .fat12 → fs.fatType.byteOffset cluster % 512 ≠ 511

/-! ## One lookup for the three widths -/

def decode (fatType : FatType) (cluster : UInt32) (data : Sector) (offset : UInt32) :
    Exec (Except Error UInt32) :=
  match fatType with
  | .fat12 => decode12 cluster data offset
  | .fat16 => decode16 data offset
  | .fat32 => decode32 data offset
  | .unknown => .ok (.error .unsupported)

variable {fs : Filesystem} {data : Sector} {sectorsPerFat : UInt32}

theorem nextCluster_eq {State : Type} (known : fs.fatType ≠ .unknown)
    (device : SectorDevice State) (cluster : UInt32) (state : State) :
    fs.nextCluster device cluster state =
      fs.lookupFat device (UInt32.ofNat (fs.fatType.byteOffset cluster))
        (decode fs.fatType cluster) state := by
  have small := cluster.toNat_lt
  unfold nextCluster
  cases kind : fs.fatType with
  | unknown => exact absurd kind known
  | fat12 =>
    have offset : cluster + cluster / 2 = UInt32.ofNat (FatType.fat12.byteOffset cluster) := by
      apply UInt32.toNat_inj.mp
      have half : 12 * cluster.toNat / 8 = cluster.toNat + cluster.toNat / 2 := by omega
      simp only [UInt32.toNat_add, UInt32.toNat_div, UInt32.toNat_ofNat', UInt32.reduceToNat,
        FatType.byteOffset, FatType.stride, half]
    rw [offset]
    rfl
  | fat16 =>
    have offset : cluster * 2 = UInt32.ofNat (FatType.fat16.byteOffset cluster) := by
      apply UInt32.toNat_inj.mp
      simp only [UInt32.toNat_mul, UInt32.toNat_ofNat', UInt32.reduceToNat, FatType.byteOffset,
        FatType.stride]
      omega
    rw [offset]
    rfl
  | fat32 =>
    have offset : cluster * 4 = UInt32.ofNat (FatType.fat32.byteOffset cluster) := by
      apply UInt32.toNat_inj.mp
      simp only [UInt32.toNat_mul, UInt32.toNat_ofNat', UInt32.reduceToNat, FatType.byteOffset,
        FatType.stride]
      omega
    rw [offset]
    rfl

def sectorRead (fs : Filesystem) (cluster : UInt32) : UInt32 :=
  fs.firstFatSector + UInt32.ofNat (fs.fatType.byteOffset cluster) / 512

theorem nextCluster_decode {cluster : UInt32} (sized : fs.bytesPerSector = 512)
    (known : fs.fatType ≠ .unknown)
    (inVolume : fs.start.toNat + (fs.sectorRead cluster).toNat ≤ fs.last.toNat)
    (content : UInt64 → Sector) :
    fs.nextCluster (.reliable content) cluster () =
      (decode fs.fatType cluster
        (content (UInt64.ofNat (fs.start.toNat + (fs.sectorRead cluster).toNat)))
        (UInt32.ofNat (fs.fatType.byteOffset cluster) % 512)).map fun next => (next, ()) := by
  have small := fs.last.toNat_lt
  have sector : fs.start + (fs.sectorRead cluster).toUInt64 =
      UInt64.ofNat (fs.start.toNat + (fs.sectorRead cluster).toNat) := by
    rw [UInt64.ofNat_add, UInt64.ofNat_toNat, UInt64.ofNat_uInt32ToNat]
  have inside : ¬(fs.start + (fs.sectorRead cluster).toUInt64 > fs.last) := by
    rw [sector, gt_iff_lt, UInt64.lt_iff_toNat_lt, UInt64.toNat_ofNat', Nat.mod_eq_of_lt (by omega)]
    omega
  rw [nextCluster_eq known, lookupFat, sized, if_neg (by decide)]
  simp only [Filesystem.read]
  rw [← sectorRead, if_neg inside, sector]
  simp only [SectorDevice.read, SectorDevice.reliable]
  cases decode fs.fatType cluster
      (content (UInt64.ofNat (fs.start.toNat + (fs.sectorRead cluster).toNat)))
      (UInt32.ofNat (fs.fatType.byteOffset cluster) % 512) with
  | error fault => rfl
  | ok next => rfl

/-! ## Decoding -/

theorem entry_meaning {fatType : FatType} {next endOfChain : UInt32} {value : Nat}
    (last : endOfChain.toNat = fatType.endOfChain) (same : next.toNat = value) :
    entry next endOfChain = fatType.meaning value := by
  rw [entry, FatType.meaning, ← last, ← same, UInt32.ofNat_toNat]
  rfl

theorem decode12_eq {cluster offset : UInt32} {bytes : Nat → UInt8} (whole : offset.toNat + 2 ≤ 512)
    (stored : ∀ index < 2, Sector.bytes data (offset.toUInt64 + UInt64.ofNat index) =
      bytes (12 * cluster.toNat / 8 + index)) :
    decode12 cluster data offset =
      .ok (FatType.fat12.meaning (packed bytes (12 * cluster.toNat) 12)) := by
  have fits : 12 * cluster.toNat % 8 + 12 ≤ 8 * 2 := by omega
  have value := packed_eq_readNat fits stored
  have bound : (Sector.bytes data).readNat offset.toUInt64 2 < 2 ^ 16 := readNat_lt _ _ 2
  rw [decode12, if_pos whole]
  apply congrArg Except.ok
  apply entry_meaning rfl
  rw [value, ByteMemory.readUInt16]
  by_cases even : cluster % 2 = 0
  · have parity : cluster.toNat % 2 = 0 := by
      simpa using congrArg UInt32.toNat even
    have aligned : 12 * cluster.toNat % 8 = 0 := by omega
    rw [if_pos even, aligned, Nat.pow_zero, Nat.div_one, UInt16.toNat_toUInt32, UInt16.toNat_and,
      UInt16.toNat_ofNat', Nat.mod_eq_of_lt bound]
    exact Nat.and_two_pow_sub_one_eq_mod _ 12
  · have parity : cluster.toNat % 2 = 1 := by
      have odd : cluster.toNat % 2 ≠ 0 := by
        intro zero
        apply even
        apply UInt32.toNat_inj.mp
        simpa using zero
      omega
    have halved : 12 * cluster.toNat % 8 = 4 := by omega
    rw [if_neg even, halved, UInt16.toNat_toUInt32, UInt16.toNat_shiftRight, UInt16.toNat_ofNat',
      Nat.mod_eq_of_lt bound]
    simp only [UInt16.reduceToNat, Nat.reduceMod, Nat.shiftRight_eq_div_pow]
    omega

theorem index_mul_width (offset width : UInt32) (aligned : offset.toNat % width.toNat = 0) :
    width.toUInt64 * (offset / width).toUInt64 = offset.toUInt64 := by
  have whole := Nat.div_add_mod offset.toNat width.toNat
  have small := offset.toNat_lt
  apply UInt64.toNat_inj.mp
  rw [UInt64.toNat_mul, UInt32.toNat_toUInt64, UInt32.toNat_toUInt64, UInt32.toNat_toUInt64,
    UInt32.toNat_div]
  rw [aligned, Nat.add_zero] at whole
  rw [whole]
  omega

theorem decode16_eq {cluster offset : UInt32} {bytes : Nat → UInt8}
    (whole : offset.toNat + 2 ≤ 512) (aligned : offset.toNat % 2 = 0)
    (stored : ∀ index < 2, Sector.bytes data (offset.toUInt64 + UInt64.ofNat index) =
      bytes (16 * cluster.toNat / 8 + index)) :
    decode16 data offset = .ok (FatType.fat16.meaning (packed bytes (16 * cluster.toNat) 16)) := by
  have start : 16 * cluster.toNat % 8 = 0 := by omega
  have fits : 16 * cluster.toNat % 8 + 16 ≤ 8 * 2 := by omega
  have value := packed_eq_readNat fits stored
  have inside : offset / 2 < 256 := by
    rw [UInt32.lt_iff_toNat_lt, UInt32.toNat_div]
    simp only [UInt32.reduceToNat]
    omega
  have place : 2 * (offset / 2).toUInt64 = offset.toUInt64 := index_mul_width offset 2 aligned
  rw [decode16, if_pos inside]
  apply congrArg Except.ok
  apply entry_meaning rfl
  rw [value, place, start, Nat.pow_zero, Nat.div_one, UInt16.toNat_toUInt32,
    ByteMemory.readUInt16, UInt16.toNat_ofNat']

theorem decode32_eq {cluster offset : UInt32} {bytes : Nat → UInt8}
    (whole : offset.toNat + 4 ≤ 512) (aligned : offset.toNat % 4 = 0)
    (stored : ∀ index < 4, Sector.bytes data (offset.toUInt64 + UInt64.ofNat index) =
      bytes (32 * cluster.toNat / 8 + index)) :
    decode32 data offset = .ok (FatType.fat32.meaning (packed bytes (32 * cluster.toNat) 28)) := by
  have start : 32 * cluster.toNat % 8 = 0 := by omega
  have fits : 32 * cluster.toNat % 8 + 28 ≤ 8 * 4 := by omega
  have value := packed_eq_readNat fits stored
  have bound : (Sector.bytes data).readNat offset.toUInt64 4 < 2 ^ 32 := readNat_lt _ _ 4
  have inside : offset / 4 < 128 := by
    rw [UInt32.lt_iff_toNat_lt, UInt32.toNat_div]
    simp only [UInt32.reduceToNat]
    omega
  have place : 4 * (offset / 4).toUInt64 = offset.toUInt64 := index_mul_width offset 4 aligned
  rw [decode32, if_pos inside]
  apply congrArg Except.ok
  apply entry_meaning rfl
  rw [value, place, start, Nat.pow_zero, Nat.div_one, UInt32.toNat_and,
    ByteMemory.readUInt32, UInt32.toNat_ofNat', Nat.mod_eq_of_lt bound]
  exact Nat.and_two_pow_sub_one_eq_mod _ 28

theorem tableByte_eq {content : UInt64 → Sector} {offset index : Nat}
    (whole : offset % 512 + index < 512) :
    fs.tableByte content (offset + index) =
      Sector.bytes
        (content (UInt64.ofNat (fs.start.toNat + fs.firstFatSector.toNat + offset / 512)))
        (UInt64.ofNat (offset % 512) + UInt64.ofNat index) := by
  have sector : (offset + index) / 512 = offset / 512 := by omega
  have place : (offset + index) % 512 = offset % 512 + index := by omega
  have small : (offset % 512 + index) % 2 ^ 64 = offset % 512 + index := Nat.mod_eq_of_lt (by omega)
  rw [tableByte, sector, place, Sector.bytes, ← UInt64.ofNat_add, UInt64.toNat_ofNat', small]

/-! ## Entries that are reached -/

def entrySector (fs : Filesystem) (cluster : UInt32) : Nat :=
  fs.firstFatSector.toNat + fs.fatType.byteOffset cluster / 512

theorem sectorRead_toNat {cluster : UInt32} (offset : fs.fatType.byteOffset cluster < 2 ^ 32)
    (sector : fs.entrySector cluster < 2 ^ 32) :
    (fs.sectorRead cluster).toNat = fs.entrySector cluster := by
  rw [sectorRead, UInt32.toNat_add, UInt32.toNat_div, UInt32.toNat_ofNat', Nat.mod_eq_of_lt offset]
  exact Nat.mod_eq_of_lt sector

theorem offset_toNat {fatType : FatType} {cluster : UInt32}
    (offset : fatType.byteOffset cluster < 2 ^ 32) :
    (UInt32.ofNat (fatType.byteOffset cluster) % 512).toNat = fatType.byteOffset cluster % 512 := by
  rw [UInt32.toNat_mod, UInt32.toNat_ofNat', Nat.mod_eq_of_lt offset]
  rfl

theorem decode_reachable {cluster : UInt32} (known : fs.fatType ≠ .unknown)
    (reachable : fs.EntryReachable cluster) (content : UInt64 → Sector) :
    decode fs.fatType cluster (content (UInt64.ofNat (fs.start.toNat + fs.entrySector cluster)))
      (UInt32.ofNat (fs.fatType.byteOffset cluster) % 512) =
      .ok (fs.tableSuccessor content cluster) := by
  have place := offset_toNat reachable.offset
  have wide : (UInt32.ofNat (fs.fatType.byteOffset cluster) % 512).toUInt64 =
      UInt64.ofNat (fs.fatType.byteOffset cluster % 512) := by
    rw [← place, UInt64.ofNat_uInt32ToNat]
  have stored (count : Nat) (whole : fs.fatType.byteOffset cluster % 512 + count ≤ 512) :
      ∀ index < count, Sector.bytes
        (content (UInt64.ofNat (fs.start.toNat + fs.entrySector cluster)))
        ((UInt32.ofNat (fs.fatType.byteOffset cluster) % 512).toUInt64 + UInt64.ofNat index) =
        fs.tableByte content (fs.fatType.byteOffset cluster + index) := by
    intro index inside
    rw [wide, tableByte_eq (by omega), Nat.add_assoc]
    rfl
  unfold tableSuccessor tableEntry
  cases kind : fs.fatType with
  | unknown => exact absurd kind known
  | fat12 =>
    have split := reachable.whole kind
    rw [kind] at place split stored
    have whole : FatType.fat12.byteOffset cluster % 512 + 2 ≤ 512 := by omega
    exact decode12_eq (by omega) (stored 2 whole)
  | fat16 =>
    rw [kind] at place stored
    have whole : FatType.fat16.byteOffset cluster % 512 + 2 ≤ 512 := by
      rw [FatType.byteOffset, FatType.stride]
      omega
    have aligned : FatType.fat16.byteOffset cluster % 512 % 2 = 0 := by
      rw [FatType.byteOffset, FatType.stride]
      omega
    exact decode16_eq (by omega) (by omega) (stored 2 whole)
  | fat32 =>
    rw [kind] at place stored
    have whole : FatType.fat32.byteOffset cluster % 512 + 4 ≤ 512 := by
      rw [FatType.byteOffset, FatType.stride]
      omega
    have aligned : FatType.fat32.byteOffset cluster % 512 % 4 = 0 := by
      rw [FatType.byteOffset, FatType.stride]
      omega
    exact decode32_eq (by omega) (by omega) (stored 4 whole)

theorem EntryInTable.sector_le_last {cluster : UInt32}
    (inside : fs.EntryInTable sectorsPerFat cluster) :
    fs.start.toNat + fs.entrySector cluster ≤ fs.last.toNat := by
  have volume := inside.inVolume
  have table := inside.inTable
  have starts : fs.fatType.byteOffset cluster < 512 * sectorsPerFat.toNat := by
    rw [FatType.byteOffset]
    cases kind : fs.fatType with
    | unknown => exact absurd kind inside.known
    | fat12 => rw [kind] at table; rw [FatType.stride] at table ⊢; omega
    | fat16 => rw [kind] at table; rw [FatType.stride] at table ⊢; omega
    | fat32 => rw [kind] at table; rw [FatType.stride] at table ⊢; omega
  rw [entrySector]
  omega

theorem nextCluster_reachable {cluster : UInt32}
    (inside : fs.EntryInTable sectorsPerFat cluster) (reachable : fs.EntryReachable cluster)
    (content : UInt64 → Sector) :
    fs.nextCluster (.reliable content) cluster () =
      .ok (fs.tableSuccessor content cluster, ()) := by
  have sector := sectorRead_toNat reachable.offset reachable.sector
  have volume := inside.sector_le_last
  rw [nextCluster_decode inside.sized inside.known (by omega), sector,
    decode_reachable inside.known reachable]
  rfl

/-! ## Entries that are not -/

def emptyFrom (sector : Nat) (address : UInt64) : Sector :=
  Vector.replicate 512 (if sector ≤ address.toNat then 0 else 0xff)

theorem bytes_replicate (value : UInt8) {address : UInt64} (inside : address.toNat < 512) :
    Sector.bytes (Vector.replicate 512 value) address = value := by
  rw [Sector.bytes, Vector.toList_replicate, List.getD_replicate value inside]

theorem tableByte_emptyFrom {cluster : UInt32} {index : Nat}
    (inside : fs.EntryInTable sectorsPerFat cluster)
    (behind : fs.fatType.byteOffset cluster ≤ index) (inTable : index < 512 * sectorsPerFat.toNat) :
    fs.tableByte (emptyFrom (fs.start.toNat + fs.entrySector cluster)) index = 0 := by
  have volume := inside.inVolume
  have small := fs.last.toNat_lt
  have sector : fs.fatType.byteOffset cluster / 512 ≤ index / 512 := Nat.div_le_div_right behind
  rw [tableByte, emptyFrom, entrySector, UInt64.toNat_ofNat', Nat.mod_eq_of_lt (by omega),
    if_pos (by omega), Vector.toList_replicate, List.getD_replicate _ (Nat.mod_lt _ (by decide))]

theorem tableSuccessor_emptyFrom {cluster : UInt32}
    (inside : fs.EntryInTable sectorsPerFat cluster) :
    fs.tableSuccessor (emptyFrom (fs.start.toNat + fs.entrySector cluster)) cluster =
      .ok 0 := by
  have value : fs.tableEntry (emptyFrom (fs.start.toNat + fs.entrySector cluster)) cluster =
      0 := by
    rw [tableEntry, ← Nat.zero_mod (2 ^ fs.fatType.width)]
    apply packed_eq_mod
    intro index inEntry
    have table := inside.inTable
    have narrow : fs.fatType.width ≤ fs.fatType.stride := by
      cases fs.fatType <;> decide
    have behind : fs.fatType.byteOffset cluster ≤
        (fs.fatType.stride * cluster.toNat + index) / 8 :=
      Nat.div_le_div_right (Nat.le_add_right _ _)
    rw [Nat.mul_add_one] at table
    rw [bitAt, tableByte_emptyFrom inside behind (by omega)]
    simp
  rw [tableSuccessor, value]
  cases kind : fs.fatType with
  | unknown => exact absurd kind inside.known
  | fat12 => rfl
  | fat16 => rfl
  | fat32 => rfl

theorem readNat_full {address : UInt64} {count : Nat} (fits : address.toNat + count ≤ 512)
    (short : count ≤ 8) :
    (Sector.bytes (Vector.replicate 512 0xff)).readNat address count =
      (2 ^ 64 - 1) % 256 ^ count := by
  have ones : ∀ index < 8, (0xff : UInt8) = UInt8.ofNat ((2 ^ 64 - 1) / 256 ^ index) := by
    decide
  apply ByteMemory.readNat_of_bytes
  intro index inNumber
  have place : (address + UInt64.ofNat index).toNat = address.toNat + index := by
    rw [UInt64.toNat_add, UInt64.toNat_ofNat']
    omega
  rw [bytes_replicate _ (by omega)]
  exact ones index (by omega)

theorem decode_full {fatType : FatType} (known : fatType ≠ .unknown) (cluster offset : UInt32) :
    decode fatType cluster (Vector.replicate 512 0xff) offset ≠ .ok (.ok 0) := by
  cases fatType with
  | unknown => exact absurd rfl known
  | fat12 =>
    simp only [decode, decode12]
    split_ifs with whole even
    · rw [ByteMemory.readUInt16, readNat_full (by rwa [UInt32.toNat_toUInt64]) (by decide)]
      decide
    · rw [ByteMemory.readUInt16, readNat_full (by rwa [UInt32.toNat_toUInt64]) (by decide)]
      decide
    · simp
  | fat16 =>
    simp only [decode, decode16]
    split_ifs with inside
    · have fits : (2 * (offset / 2).toUInt64).toNat + 2 ≤ 512 := by
        rw [UInt32.lt_iff_toNat_lt] at inside
        rw [UInt64.toNat_mul, UInt32.toNat_toUInt64]
        simp only [UInt32.reduceToNat, UInt64.reduceToNat] at inside ⊢
        omega
      rw [ByteMemory.readUInt16, readNat_full fits (by decide)]
      decide
    · simp
  | fat32 =>
    simp only [decode, decode32]
    split_ifs with inside
    · have fits : (4 * (offset / 4).toUInt64).toNat + 4 ≤ 512 := by
        rw [UInt32.lt_iff_toNat_lt] at inside
        rw [UInt64.toNat_mul, UInt32.toNat_toUInt64]
        simp only [UInt32.reduceToNat, UInt64.reduceToNat] at inside ⊢
        omega
      rw [ByteMemory.readUInt32, readNat_full fits (by decide)]
      decide
    · simp

theorem sectorRead_lt {cluster : UInt32} (wraps : ¬(fs.fatType.byteOffset cluster < 2 ^ 32 ∧
      fs.entrySector cluster < 2 ^ 32)) :
    (fs.sectorRead cluster).toNat < fs.entrySector cluster := by
  rw [entrySector] at *
  rw [sectorRead, UInt32.toNat_add, UInt32.toNat_div, UInt32.toNat_ofNat']
  simp only [UInt32.reduceToNat]
  omega

theorem reachable_of_decodes {cluster : UInt32} (inside : fs.EntryInTable sectorsPerFat cluster)
    (decodes : ∀ content, fs.nextCluster (.reliable content) cluster () =
      .ok (fs.tableSuccessor content cluster, ())) :
    fs.EntryReachable cluster := by
  have volume := inside.sector_le_last
  have small := fs.last.toNat_lt
  have decoded := decodes (emptyFrom (fs.start.toNat + fs.entrySector cluster))
  rw [tableSuccessor_emptyFrom inside] at decoded
  by_cases wraps : fs.fatType.byteOffset cluster < 2 ^ 32 ∧ fs.entrySector cluster < 2 ^ 32
  · refine ⟨wraps.1, wraps.2, ?_⟩
    intro kind last
    -- The entry goes on in the next sector, so its second byte is outside the buffer.
    have sector := sectorRead_toNat wraps.1 wraps.2
    have place := offset_toNat wraps.1
    rw [nextCluster_decode inside.sized inside.known (by omega), kind] at decoded
    rw [kind] at place last
    simp only [decode, decode12] at decoded
    rw [if_neg (by omega)] at decoded
    cases decoded
  · have earlier := sectorRead_lt wraps
    have sector : emptyFrom (fs.start.toNat + fs.entrySector cluster)
        (UInt64.ofNat (fs.start.toNat + (fs.sectorRead cluster).toNat)) =
        Vector.replicate 512 0xff := by
      rw [emptyFrom, UInt64.toNat_ofNat', Nat.mod_eq_of_lt (by omega), if_neg (by omega)]
    rw [nextCluster_decode inside.sized inside.known (by omega), sector] at decoded
    exfalso
    have full := decode_full inside.known cluster
      (UInt32.ofNat (fs.fatType.byteOffset cluster) % 512)
    cases result : decode fs.fatType cluster (Vector.replicate 512 0xff)
        (UInt32.ofNat (fs.fatType.byteOffset cluster) % 512) with
    | error fault =>
      rw [result] at decoded
      cases decoded
    | ok next =>
      rw [result] at decoded full
      cases decoded
      exact full rfl

/-! ## Exactness -/

/-- For every contents of the table `next_cluster` gives the entry of the cluster,
exactly when the entry can be reached. -/
theorem nextCluster_exact_iff_reachable {fs : Filesystem} {sectorsPerFat cluster : UInt32}
    (inside : fs.EntryInTable sectorsPerFat cluster) :
    (∀ content, fs.nextCluster (.reliable content) cluster () =
      .ok (fs.tableSuccessor content cluster, ())) ↔ fs.EntryReachable cluster := by
  constructor
  · exact reachable_of_decodes inside
  · exact nextCluster_reachable inside

def floppy : Filesystem where
  start := 0
  last := 2879
  bytesPerSector := 512
  fatType := .fat12
  sectorsPerCluster := 1
  firstFatSector := 1
  firstDataSector := 33

theorem floppy_entryInTable {cluster : UInt32} (inside : cluster.toNat < 3072) :
    floppy.EntryInTable 9 cluster := by
  refine ⟨rfl, by decide, by decide, ?_⟩
  change 12 * (cluster.toNat + 1) ≤ 8 * (512 * 9)
  omega

/-- An entry in the middle of a sector is decoded. -/
theorem floppy_middle_exact :
    floppy.EntryInTable 9 340 ∧ ∀ content, floppy.nextCluster (.reliable content) 340 () =
      .ok (floppy.tableSuccessor content 340, ()) :=
  ⟨floppy_entryInTable (by decide),
    (nextCluster_exact_iff_reachable (floppy_entryInTable (by decide))).mpr
      ⟨by decide, by decide, by decide⟩⟩

/-- The entry of cluster 341 begins in byte 511 of the first sector of the table. -/
theorem floppy_straddling_entry :
    floppy.EntryInTable 9 341 ∧
      floppy.nextCluster (.reliable fun _ => Vector.replicate 512 0) 341 () =
        .error .undefined :=
  ⟨floppy_entryInTable (by decide), rfl⟩

end Filesystem

end HypervisorFirmware.Fat
