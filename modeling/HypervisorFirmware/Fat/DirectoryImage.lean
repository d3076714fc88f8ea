import Mathlib.Data.List.GetD
import HypervisorFirmware.Fat.DirectoryRecords
import HypervisorFirmware.Fat.PathLookup

/-! # Directories with given records

Images of directories, for volumes on which a given entry can be found: sectors that
have given records, and records that have the parts of a given long name. -/

namespace HypervisorFirmware.Fat

/-! ## Parts of a long name -/

def unitByte (unit : UInt16) (index : Nat) : UInt8 := UInt8.ofNat (unit.toNat / 256 ^ index)

def partByte (number : UInt8) (units : Nat → UInt16) (index : Nat) : UInt8 :=
  if index = 0 then number
  else if index < 11 then unitByte (units ((index - 1) / 2)) ((index - 1) % 2)
  else if index = 11 then 0x0f
  else if index < 14 then 0
  else if index < 26 then unitByte (units (5 + (index - 14) / 2)) ((index - 14) % 2)
  else if index < 28 then 0
  else unitByte (units (11 + (index - 28) / 2)) ((index - 28) % 2)

namespace Record

def part (number : UInt8) (units : Nat → UInt16) : Record :=
  Vector.ofFn fun index => partByte number units index.val

theorem bytes_part (number : UInt8) (units : Nat → UInt16) {index : Nat} (inside : index < 32) :
    (part number units).bytes (UInt64.ofNat index) = partByte number units index := by
  have small : (UInt64.ofNat index).toNat = index := by
    rw [UInt64.toNat_ofNat', Nat.mod_eq_of_lt (by omega)]
  rw [bytes, small, part, Vector.toList_ofFn, List.getD_eq_getElem _ _ (by simpa using inside),
    List.getElem_ofFn]

def unitOffset (unit : Nat) : Nat :=
  if unit < 5 then 2 * unit + 1 else if unit < 11 then 2 * unit + 4 else 2 * unit + 6

variable (number : UInt8) (units : Nat → UInt16)

include units

theorem partByte_unitOffset {unit byte : Nat} (inside : unit < 13) (small : byte < 2) :
    partByte number units (unitOffset unit + byte) = unitByte (units unit) byte := by
  rw [partByte, unitOffset]
  by_cases first : unit < 5
  · have half : (2 * unit + 1 + byte - 1) / 2 = unit := by omega
    have rest : (2 * unit + 1 + byte - 1) % 2 = byte := by omega
    rw [if_pos first, if_neg (by omega), if_pos (by omega), half, rest]
  · rw [if_neg first]
    by_cases second : unit < 11
    · have half : 5 + (2 * unit + 4 + byte - 14) / 2 = unit := by omega
      have rest : (2 * unit + 4 + byte - 14) % 2 = byte := by omega
      rw [if_pos second, if_neg (by omega), if_neg (by omega), if_neg (by omega),
        if_neg (by omega), if_pos (by omega), half, rest]
    · have half : 11 + (2 * unit + 6 + byte - 28) / 2 = unit := by omega
      have rest : (2 * unit + 6 + byte - 28) % 2 = byte := by omega
      rw [if_neg second, if_neg (by omega), if_neg (by omega), if_neg (by omega),
        if_neg (by omega), if_neg (by omega), if_neg (by omega), half, rest]

theorem readUInt16_part {unit : Nat} (inside : unit < 13) :
    (part number units).bytes.readUInt16 (UInt64.ofNat (unitOffset unit)) = units unit := by
  have offset : unitOffset unit + 1 < 32 := by
    rw [unitOffset]
    split_ifs
    all_goals omega
  have value := ByteMemory.readNat_of_bytes (part number units).bytes
    (UInt64.ofNat (unitOffset unit)) (units unit).toNat 2 (by
      intro byte small
      rw [← UInt64.ofNat_add, bytes_part number units (by omega)]
      exact partByte_unitOffset number units inside small)
  have bound := (units unit).toNat_lt
  rw [ByteMemory.readUInt16, value, Nat.mod_eq_of_lt (by omega), UInt16.ofNat_toNat]

theorem longNameUnits_part : (part number units).longNameUnits = (List.range 13).map units := by
  have listed : (part number units).longNameUnits = (List.range 13).map fun unit =>
      (part number units).bytes.readUInt16 (UInt64.ofNat (unitOffset unit)) := rfl
  rw [listed]
  apply List.map_congr_left
  intro unit member
  exact readUInt16_part number units (List.mem_range.mp member)

theorem first_part : (part number units).first = number :=
  Vector.getElem_ofFn (show 0 < 32 by decide)

theorem flags_part : (part number units).flags = 0x0f :=
  Vector.getElem_ofFn (show 11 < 32 by decide)

end Record

def partsOf (name : LongName) (count : Nat) : List Record :=
  (List.range count).map fun number =>
    Record.part (UInt8.ofNat (number + 1)) fun unit => name.toList.getD (number * 13 + unit) 0

theorem partsOf_succ (name : LongName) (count : Nat) :
    partsOf name (count + 1) = partsOf name count ++
      [Record.part (UInt8.ofNat (count + 1)) fun unit =>
        name.toList.getD (count * 13 + unit) 0] := by
  rw [partsOf, List.range_succ, List.map_append, List.map_singleton, partsOf]

theorem numbers_checked : ∀ number < 20, UInt8.ofNat (number + 1) ≠ 0 ∧
    UInt8.ofNat (number + 1) ≠ 0xe5 ∧ (UInt8.ofNat (number + 1) &&& 0x1f).toNat = number + 1 := by
  decide

theorem partsOf_skipped (name : LongName) {count : Nat} (fits : count ≤ 20) :
    ∀ record ∈ partsOf name count, record.Skipped := by
  intro record member
  rcases List.mem_map.mp member with ⟨number, inside, rfl⟩
  rcases numbers_checked number (Nat.lt_of_lt_of_le (List.mem_range.mp inside) fits) with
    ⟨nonzero, _, readBack⟩
  refine ⟨?_, fun isEntry => isEntry.2.2 (Record.flags_part _ _), fun _ _ _ => ?_⟩
  · rwa [Record.first_part]
  · rw [Record.sequence, Record.first_part, readBack]
    have below := List.mem_range.mp inside
    omega

theorem get_nameBehind_partsOf (name : LongName) {count : Nat} (fits : count ≤ 20)
    (index : Fin efiPathStringLength) :
    (nameBehind emptyName (partsOf name count)).get index =
      if index.val < count * 13 then name.get index else 0 := by
  induction count with
  | zero =>
    rw [if_neg (by omega)]
    exact Vector.getElem_replicate index.isLt
  | succ count induction =>
    rcases numbers_checked count fits with ⟨nonzero, used, readBack⟩
    have before := induction (Nat.le_of_succ_le fits)
    rw [partsOf_succ, nameBehind_concat]
    generalize units : (fun unit => name.toList.getD (count * 13 + unit) 0) = unitsHere
    have numbered : (Record.part (UInt8.ofNat (count + 1)) unitsHere).sequence = count + 1 := by
      rw [Record.sequence, Record.first_part, readBack]
    rw [Record.collect, if_neg (by rwa [Record.first_part]), if_pos (Record.flags_part _ _),
      get_copyLongName, numbered, Record.longNameUnits_part, before, Nat.add_sub_cancel]
    by_cases inside : count * 13 ≤ index.val ∧ index.val < count * 13 + 13
    · have unit : index.val - count * 13 < ((List.range 13).map unitsHere).length := by
        rw [List.length_map, List.length_range]
        omega
      rw [if_pos inside, if_pos (by omega), List.getD_eq_getElem _ _ unit, List.getElem_map,
        List.getElem_range, ← units]
      dsimp only
      rw [Nat.add_sub_cancel' inside.1,
        List.getD_eq_getElem _ _ (by rw [Vector.length_toList]; exact index.isLt),
        Vector.getElem_toList]
      rfl
    · rw [if_neg inside]
      by_cases passed : index.val < count * 13
      · rw [if_pos passed, if_pos (by omega)]
      · rw [if_neg passed, if_neg (by omega)]

theorem nameBehind_partsOf (name : LongName) : nameBehind emptyName (partsOf name 20) = name := by
  apply Vector.ext
  intro index inside
  have place := get_nameBehind_partsOf name (Nat.le_refl 20) ⟨index, inside⟩
  rw [if_pos inside] at place
  exact place

/-! ## Sectors with given records -/

def endMark : Record := Vector.replicate 32 0

theorem byte_in_record (index : Fin 512) : index.val % 32 < 32 := Nat.mod_lt _ (by decide)

def Sector.ofRecords (records : List Record) : Sector :=
  Vector.ofFn fun index =>
    (records.getD (index.val / 32) endMark).get ⟨index.val % 32, byte_in_record index⟩

theorem Sector.record_ofRecords (records : List Record) (index : Fin 16) :
    (Sector.ofRecords records).record index = records.getD index.val endMark := by
  apply Vector.ext
  intro byte inside
  have place : ((Sector.ofRecords records).record index)[byte] =
      (records.getD ((32 * index.val + byte) / 32) endMark).get
        ⟨(32 * index.val + byte) % 32, Nat.mod_lt _ (by decide)⟩ := by
    rw [Sector.record, Vector.getElem_ofFn]
    exact Vector.getElem_ofFn _
  have record : (32 * index.val + byte) / 32 = index.val := by omega
  have offset : (32 * index.val + byte) % 32 = byte := by omega
  rw [place]
  simp only [record, offset]
  rfl

theorem Sector.records_ofRecords (records : List Record) : (Sector.ofRecords records).records =
      (List.range 16).map fun index => records.getD index endMark := by
  rw [Sector.records, List.map_congr_left fun index _ => Sector.record_ofRecords records index]
  rfl

theorem Sector.records_two {records : List Record} (fits : records.length < 32) :
    (Sector.ofRecords records).records ++ (Sector.ofRecords (records.drop 16)).records =
      records ++ endMark :: List.replicate (31 - records.length) endMark := by
  have listed : (List.range 32).map (fun index => records.getD index endMark) =
      records ++ endMark :: List.replicate (31 - records.length) endMark := by
    rw [← List.replicate_succ]
    apply List.ext_getElem
    · simp
      omega
    · intro index inside _
      rw [List.getElem_map, List.getElem_range, List.getElem_append]
      split
      · rename_i within
        rw [List.getD_eq_getElem _ _ within]
      · rename_i beyond
        rw [List.getD_eq_default _ _ (Nat.le_of_not_lt beyond), List.getElem_replicate]
  have second : (List.range 16).map (fun index => (records.drop 16).getD index endMark) =
      (List.range 16).map ((fun index => records.getD index endMark) ∘ (16 + ·)) := by
    apply List.map_congr_left
    intro index _
    simp [List.getD_eq_getElem?_getD]
  rw [Sector.records_ofRecords, Sector.records_ofRecords, ← listed, second, ← List.map_map,
    ← List.map_append, ← List.range_add]

theorem inSequence_endMarks {records : List Record}
    (inSequence : ∀ record ∈ records, record.InSequence) (more : Nat) :
    ∀ record ∈ records ++ endMark :: List.replicate more endMark, record.InSequence := by
  intro record member
  simp only [List.mem_append, List.mem_cons, List.mem_replicate] at member
  rcases member with member | rfl | ⟨_, rfl⟩
  · exact inSequence record member
  · exact fun _ nonzero => absurd rfl nonzero
  · exact fun _ nonzero => absurd rfl nonzero

/-! ## A volume with one directory -/

namespace DirectoryImage

def volume : Volume where
  start := 0
  last := 10
  bytesPerSector := 512
  fatType := .fat32
  sectorsPerCluster := 2
  firstFatSector := 0
  firstDataSector := 1
  rootDirSectors := 0
  rootCluster := 2

def content (records : List Record) (sector : UInt64) : Sector :=
  if sector = 0 then Vector.replicate 512 0xff
  else if sector = 1 then Sector.ofRecords records
  else Sector.ofRecords (records.drop 16)

theorem finite (records : List Record) :
    FiniteDirectory volume.toFilesystem (content records) 2 [2] := by
  apply FiniteDirectory.single
  · have read : volume.toFilesystem.read (.reliable (content records)) 0 () =
        (some (Vector.replicate 512 0xff), ()) := by
      rw [Filesystem.read, if_neg (by decide)]
      simp [SectorDevice.read, SectorDevice.reliable, content, volume]
    have sector : (volume.firstFatSector + 2 * 4 / volume.bytesPerSector).toUInt64 = 0 := by decide
    have offset : 2 * 4 % volume.bytesPerSector = 8 := by decide
    have decoded : Filesystem.decode32 (Vector.replicate 512 0xff) 8 =
        .ok (.error .endOfFile) := by decide +kernel
    rw [Filesystem.nextCluster]
    change volume.toFilesystem.lookupFat (.reliable (content records)) (2 * 4)
      Filesystem.decode32 () = _
    rw [Filesystem.lookupFat, if_neg (by decide)]
    simp only [sector, offset, read, decoded, Exec.ok_bind, Exec.pure_eq_ok]
  · decide

theorem directoryRecords_eq {records : List Record} (fits : records.length < 32) :
    ∃ more, directoryRecords volume.toFilesystem (content records) [2] =
      records ++ endMark :: List.replicate more endMark :=
  ⟨_, Sector.records_two fits⟩

def listing (records : List Record) (cluster : UInt32) : Listing :=
  if cluster = 2 then ⟨flatScan emptyName records, .ok .endOfFile⟩ else ⟨[], .ok .blockError⟩

theorem flatScan_endMarks (longEntry : LongName) (records : List Record) (more : Nat) :
    flatScan longEntry (records ++ endMark :: List.replicate more endMark) =
      flatScan longEntry records := by
  induction records generalizing longEntry with
  | nil => rfl
  | cons record rest induction =>
    rw [List.cons_append, flatScan, flatScan]
    split_ifs
    · rfl
    · exact induction _
    · exact induction _
    · rw [induction]

theorem length_flatScan_le (longEntry : LongName) (records : List Record) :
    (flatScan longEntry records).length ≤ records.length := by
  induction records generalizing longEntry with
  | nil => exact Nat.le_refl _
  | cons record rest induction =>
    rw [flatScan, List.length_cons]
    split_ifs
    · exact Nat.zero_le _
    · exact Nat.le_succ_of_le (induction _)
    · exact Nat.le_succ_of_le (induction _)
    · rw [List.length_cons]
      exact Nat.succ_le_succ (induction _)

variable {fuel : Nat} {longEntry : LongName}

theorem lists_root {records : List Record} (fits : records.length < 32)
    (inSequence : ∀ record ∈ records, record.InSequence) (enough : 2 < fuel) :
    (getDirectory 2).Lists volume.toFilesystem (.reliable (content records)) fuel
      ⟨flatScan emptyName records, .ok .endOfFile⟩ := by
  have lists : (getDirectory 2).Lists volume.toFilesystem (.reliable (content records)) fuel
      (scanRecords (.ok .endOfFile) emptyName
        (directoryRecords volume.toFilesystem (content records) [2])) :=
    (finite records).lists enough
  rcases directoryRecords_eq fits with ⟨more, listed⟩
  rwa [listed, scanRecords_eq_flatScan (inSequence_endMarks inSequence more),
    flatScan_endMarks] at lists

theorem lists_beyond (records : List Record) (enough : 0 < fuel) :
    (getDirectory 100).Lists volume.toFilesystem (.reliable (content records)) fuel
      ⟨[], .ok .blockError⟩ := by
  refine ⟨100, [], .ok .blockError, rfl, .unreadable (by decide) ?_, enough, Nat.zero_le _,
    fun _ => rfl, rfl⟩
  rw [Filesystem.read, if_pos (by decide)]

def tree (records : List Record) (fits : records.length < 32)
    (inSequence : ∀ record ∈ records, record.InSequence)
    (files : ∀ entry ∈ flatScan emptyName records, entry.fileType = .file) (fuel : Nat)
    (enough : 32 < fuel) : Tree volume (.reliable (content records)) fuel where
  fat32 := rfl
  positive := by decide
  listing := listing records
  IsDirectory cluster := cluster = 2 ∨ cluster = 100
  root := Or.inl rfl
  lists cluster inside := by
    rcases inside with rfl | rfl
    · exact lists_root fits inSequence (by omega)
    · exact lists_beyond records (by omega)
  short cluster inside := by
    have short := length_flatScan_le emptyName records
    rcases inside with rfl | rfl
    · exact Nat.lt_of_le_of_lt short (Nat.lt_trans fits enough)
    · exact Nat.zero_lt_of_lt enough
  closed cluster inside entry member directory := by
    rcases inside with rfl | rfl
    · have file := files entry member
      rw [directory] at file
      cases file
    · cases member

def named (record : Record) (longEntry : LongName) : List Record :=
  partsOf longEntry 20 ++ [record]

theorem length_named (record : Record) (longEntry : LongName) :
    (named record longEntry).length < 32 := by
  rw [named, List.length_append, partsOf, List.length_map, List.length_range, List.length_singleton]
  decide

theorem flatScan_named {record : Record} (isEntry : record.IsEntry) (longEntry : LongName) :
    flatScan emptyName (named record longEntry) = [record.entry longEntry] := by
  rw [named, flatScan_skipped (partsOf_skipped longEntry (Nat.le_refl 20)), nameBehind_partsOf,
    flatScan, if_neg isEntry.1, if_neg isEntry.2.1, if_neg isEntry.2.2, flatScan]

theorem inSequence_named {record : Record} (isEntry : record.IsEntry) (longEntry : LongName) :
    ∀ other ∈ named record longEntry, other.InSequence := by
  intro other member
  rcases List.mem_append.mp member with part | last
  · exact (partsOf_skipped longEntry (Nat.le_refl 20) other part).2.2
  · rw [List.mem_singleton.mp last]
    exact isEntry.inSequence

theorem files_named {record : Record} (isEntry : record.IsEntry)
    (file : (record.entry longEntry).fileType = .file) :
    ∀ entry ∈ flatScan emptyName (named record longEntry), entry.fileType = .file := by
  intro entry member
  rw [flatScan_named isEntry, List.mem_singleton] at member
  rw [member, file]

def fileTree {record : Record} (isEntry : record.IsEntry) {longEntry : LongName}
    (file : (record.entry longEntry).fileType = .file) (fuel : Nat) (enough : 32 < fuel) :
    Tree volume (.reliable (content (named record longEntry))) fuel :=
  tree (named record longEntry) (length_named record longEntry)
    (inSequence_named isEntry longEntry) (files_named isEntry file) fuel enough

theorem search_fileTree {record : Record} (isEntry : record.IsEntry)
    (file : (record.entry longEntry).fileType = .file) (enough : 32 < fuel)
    (name : List Char) :
    ((fileTree isEntry file fuel enough).listing 2).search name =
      searchEntries name (.ok .endOfFile) [record.entry longEntry] := by
  have listed : (fileTree isEntry file fuel enough).listing 2 =
      listing (named record longEntry) 2 := rfl
  rw [listed, listing, if_pos rfl, flatScan_named isEntry, Listing.search]

end DirectoryImage

end HypervisorFirmware.Fat
