import HypervisorFirmware.Fat.FileContents

/-! # Files of every size

A volume whose clusters follow each other without end, so that it holds a file of
any size. The first byte of each sector is set, the others are zero. -/

namespace HypervisorFirmware.Fat.LongFile

def volume : Filesystem where
  start := 0
  last := 0xffffffff
  bytesPerSector := 512
  fatType := .fat32
  sectorsPerCluster := 128
  firstFatSector := 1
  firstDataSector := 1024

def tableSector (index : Nat) : Sector :=
  Vector.ofFn fun position : Fin 512 =>
    UInt8.ofNat ((128 * index + position / 4 + 1) / 256 ^ (position.val % 4))

def dataSector : Sector :=
  Vector.ofFn fun position : Fin 512 => if position.val = 0 then 1 else 0

def content (sector : UInt64) : Sector :=
  if sector < 1024 then tableSector (sector.toNat - 1) else dataSector

theorem bytes_ofFn (byte : Fin 512 → UInt8) (position : Fin 512) (address : UInt64)
    (located : address.toNat = position) :
    (Sector.bytes (Vector.ofFn byte)) address = byte position := by
  simp [Sector.bytes, located, List.getD_eq_getElem?_getD]

theorem readUInt32_tableSector (index entry : Nat) (inside : entry < 128)
    (small : 128 * index + entry + 1 < 2 ^ 32) :
    ((Sector.bytes (tableSector index)).readUInt32 (UInt64.ofNat (4 * entry))).toNat =
      128 * index + entry + 1 := by
  have read : (Sector.bytes (tableSector index)).readNat (UInt64.ofNat (4 * entry)) 4 =
      (128 * index + entry + 1) % 256 ^ 4 := by
    apply ByteMemory.readNat_of_bytes
    intro byte inEntry
    rw [tableSector, bytes_ofFn _ ⟨4 * entry + byte, by omega⟩]
    · have quotient : (4 * entry + byte) / 4 = entry := by omega
      have remainder : (4 * entry + byte) % 4 = byte := by omega
      simp only [quotient, remainder]
    · rw [← UInt64.ofNat_add, UInt64.toNat_ofNat', Nat.mod_eq_of_lt (by omega)]
  rw [ByteMemory.readUInt32, read, UInt32.toNat_ofNat']
  omega

theorem decode32_tableSector (index : Nat) (offset next : UInt32)
    (inside : (offset / 4).toNat < 128) (small : next < 0x0ffffff8)
    (following : next.toNat = 128 * index + (offset / 4).toNat + 1) :
    Filesystem.decode32 (tableSector index) offset = .ok (.ok next) := by
  have below : next.toNat < 268435448 := UInt32.lt_iff_toNat_lt.mp small
  have address : 4 * (offset / 4).toUInt64 = UInt64.ofNat (4 * (offset / 4).toNat) := by
    rw [← UInt64.toNat_inj, UInt64.toNat_mul, UInt32.toNat_toUInt64, UInt64.toNat_ofNat']
    rfl
  have raw : (Sector.bytes (tableSector index)).readUInt32 (4 * (offset / 4).toUInt64) =
      next := by
    rw [← UInt32.toNat_inj, address, readUInt32_tableSector index _ inside (by omega), following]
  have masked : next &&& 0x0fffffff = next := by
    rw [← UInt32.toNat_inj, UInt32.toNat_and]
    exact (Nat.and_two_pow_sub_one_eq_mod _ 28).trans (Nat.mod_eq_of_lt (by omega))
  rw [Filesystem.decode32, if_pos (UInt32.lt_iff_toNat_lt.mpr inside)]
  simp only [raw, masked]
  rw [Filesystem.entry, if_neg (UInt32.not_le.mpr small)]

theorem fatSector_toNat (cluster : UInt32) (small : cluster.toNat < 130000) :
    (1 + cluster * 4 / 512).toUInt64.toNat = 1 + cluster.toNat / 128 := by
  rw [UInt32.toNat_toUInt64, UInt32.toNat_add, UInt32.toNat_div, UInt32.toNat_mul]
  simp only [UInt32.reduceToNat]
  omega

theorem entry_toNat (cluster : UInt32) : (cluster * 4 % 512 / 4).toNat = cluster.toNat % 128 := by
  rw [UInt32.toNat_div, UInt32.toNat_mod, UInt32.toNat_mul]
  simp only [UInt32.reduceToNat]
  omega

theorem read_table (cluster : UInt32) (small : cluster.toNat < 130000) :
    volume.read (.reliable content) (1 + cluster * 4 / 512).toUInt64 () =
      (some (tableSector (cluster.toNat / 128)), ()) := by
  have sector := fatSector_toNat cluster small
  have early : (1 + cluster * 4 / 512).toUInt64 < 1024 := by
    rw [UInt64.lt_iff_toNat_lt, sector]
    simp only [UInt64.reduceToNat]
    omega
  have inVolume : ¬ 0 + (1 + cluster * 4 / 512).toUInt64 > 0xffffffff := by
    rw [gt_iff_lt, UInt64.lt_iff_toNat_lt, UInt64.zero_add, sector]
    simp only [UInt64.reduceToNat]
    omega
  have table : content (0 + (1 + cluster * 4 / 512).toUInt64) =
      tableSector (cluster.toNat / 128) := by
    rw [UInt64.zero_add, content, if_pos early, sector, Nat.add_sub_cancel_left]
  rw [← table]
  exact if_neg inVolume

theorem successor_eq (cluster : UInt32) (small : cluster.toNat < 130000) :
    volume.successor content cluster = some (cluster + 1) := by
  have entry := entry_toNat cluster
  have following : (cluster + 1).toNat = cluster.toNat + 1 := by
    rw [UInt32.toNat_add]
    simp only [UInt32.reduceToNat]
    omega
  have notEnd : cluster + 1 < 0x0ffffff8 := by
    rw [UInt32.lt_iff_toNat_lt, following]
    simp only [UInt32.reduceToNat]
    omega
  have decoded := decode32_tableSector (cluster.toNat / 128) (cluster * 4 % 512)
    (cluster + 1) (by omega) notEnd (by omega)
  have lookup : volume.nextCluster (.reliable content) cluster () =
      .ok (.ok (cluster + 1), ()) := by
    have sized : volume.bytesPerSector = 512 := rfl
    have first : volume.firstFatSector = 1 := rfl
    change volume.lookupFat _ _ _ _ = _
    rw [Filesystem.lookupFat, sized, first, if_neg (by decide)]
    simp only [read_table cluster small, decoded]
    rfl
  rw [Filesystem.successor, lookup]

theorem clusterAt_eq (index : Nat) (small : index ≤ 65536) :
    volume.clusterAt content 2 index = some (UInt32.ofNat (index + 2)) := by
  induction index with
  | zero => rfl
  | succ index induction =>
    have next : UInt32.ofNat (index + 2) + 1 = UInt32.ofNat (index + 1 + 2) := by
      rw [← UInt32.toNat_inj, UInt32.toNat_add, UInt32.toNat_ofNat', UInt32.toNat_ofNat']
      simp only [UInt32.reduceToNat]
      omega
    rw [Filesystem.clusterAt, induction (by omega), Option.bind_eq_bind, Option.bind_some,
      successor_eq _ (by rw [UInt32.toNat_ofNat']; omega), next]

theorem sector_eq (index : Nat) (small : index < 2 ^ 23) :
    ((volume.firstSectorOfCluster (UInt32.ofNat (index / 128 + 2))).toUInt64 +
      UInt64.ofNat (index % 128)).toNat = 1024 + index := by
  have cluster : UInt32.ofNat (index / 128 + 2) - 2 = UInt32.ofNat (index / 128) := by
    rw [UInt32.ofNat_add]
    exact UInt32.add_sub_cancel _ 2
  have first : (volume.firstSectorOfCluster (UInt32.ofNat (index / 128 + 2))).toNat =
      1024 + index / 128 * 128 := by
    change ((UInt32.ofNat (index / 128 + 2) - 2) * 128 + 1024).toNat = _
    rw [cluster, UInt32.toNat_add, UInt32.toNat_mul, UInt32.toNat_ofNat']
    simp only [UInt32.reduceToNat]
    omega
  rw [UInt64.toNat_add, UInt32.toNat_toUInt64, first, UInt64.toNat_ofNat']
  omega

theorem fileSector_eq (index : Nat) (small : index < 2 ^ 23) :
    volume.fileSector content 2 index = some dataSector := by
  have located := sector_eq index small
  have perCluster : volume.sectorsPerCluster.toNat = 128 := rfl
  rw [Filesystem.fileSector, perCluster, clusterAt_eq _ (by omega), Option.bind_eq_bind,
    Option.bind_some, Filesystem.clusterSector]
  revert located
  generalize (volume.firstSectorOfCluster (UInt32.ofNat (index / 128 + 2))).toUInt64 +
    UInt64.ofNat (index % 128) = sector
  intro located
  have inVolume : ¬ 0 + sector > 0xffffffff := by
    rw [gt_iff_lt, UInt64.lt_iff_toNat_lt, UInt64.zero_add, located]
    simp only [UInt64.reduceToNat]
    omega
  have data : content (0 + sector) = dataSector := by
    have late : ¬ sector < 1024 := by
      rw [UInt64.lt_iff_toNat_lt, located]
      simp only [UInt64.reduceToNat]
      omega
    rw [UInt64.zero_add, content, if_neg late]
  rw [← data]
  exact congrArg Prod.fst (if_neg inVolume)

theorem wellFormed (size : UInt32) (small : size.toNat ≤ 2 ^ 32 - 512) :
    volume.WellFormed content 2 size where
  positive := by decide
  readable := by
    intro index inside
    exact ⟨dataSector, fileSector_eq index (by omega)⟩
  distinct := by
    intro left right leftInside rightInside same
    have perCluster : volume.sectorsPerCluster.toNat = 128 := rfl
    rw [perCluster] at leftInside rightInside
    rw [clusterAt_eq left (by omega), clusterAt_eq right (by omega), Option.some.injEq,
      ← UInt32.toNat_inj, UInt32.toNat_ofNat', UInt32.toNat_ofNat'] at same
    omega

theorem byteAt_eq (index : Nat) (small : index < 2 ^ 32) :
    volume.byteAt content 2 index = if 512 ∣ index then 1 else 0 := by
  have inside : index % 512 < 512 := Nat.mod_lt _ (by decide)
  rw [Filesystem.byteAt, fileSector_eq _ (by omega)]
  simp [dataSector, List.getD_eq_getElem?_getD, inside, Nat.dvd_iff_mod_eq_zero]

end HypervisorFirmware.Fat.LongFile
