import HypervisorFirmware.Fat.File

/-! # The contents of a file

The bytes of a file in order, and reads of a well-formed file on a device that
does not fail. -/

namespace HypervisorFirmware.Fat

namespace Filesystem

variable {fs : Filesystem} {content : UInt64 → Sector} {start : UInt32}

def byteAt (fs : Filesystem) (content : UInt64 → Sector) (start : UInt32) (index : Nat) :
    UInt8 :=
  match fs.fileSector content start (index / 512) with
  | some data => data.toList.getD (index % 512) 0
  | none => 0

def fileBytes (fs : Filesystem) (content : UInt64 → Sector) (start : UInt32)
    (first count : Nat) : List UInt8 :=
  (List.range' first count).map (fs.byteAt content start)

@[simp] theorem length_fileBytes (first count : Nat) :
    (fs.fileBytes content start first count).length = count := by
  simp [fileBytes]

@[simp] theorem fileBytes_zero (first : Nat) : fs.fileBytes content start first 0 = [] := rfl

theorem fileBytes_append (first left right : Nat) :
    fs.fileBytes content start first left ++ fs.fileBytes content start (first + left) right =
      fs.fileBytes content start first (left + right) := by
  rw [fileBytes, fileBytes, fileBytes, ← List.map_append, List.range'_append_1]

theorem head?_fileBytes {first count : Nat} (positive : 0 < count) :
    (fs.fileBytes content start first count).head? = some (fs.byteAt content start first) := by
  obtain ⟨count, rfl⟩ := Nat.exists_eq_add_of_lt positive
  simp [fileBytes, List.range'_succ]

theorem take_fileSector {index count : Nat} {data : Sector}
    (found : fs.fileSector content start index = some data) (fits : count ≤ 512) :
    data.toList.take count = fs.fileBytes content start (512 * index) count := by
  have bytes : data.toList.length = 512 := data.length_toList
  apply List.ext_getElem
  · simp [fits]
  · intro position inTake inBytes
    have inside : position < count := by simpa using inBytes
    have sector : (512 * index + position) / 512 = index := by omega
    have offset : (512 * index + position) % 512 = position := by omega
    simp only [fileBytes, List.getElem_take, List.getElem_map, List.getElem_range',
      Nat.one_mul, byteAt, sector, offset, found]
    rw [List.getD_eq_getElem?_getD, List.getElem?_eq_getElem (by omega), Option.getD_some]

structure WellFormed (fs : Filesystem) (content : UInt64 → Sector) (start size : UInt32) :
    Prop where
  positive : 0 < fs.sectorsPerCluster
  readable : ∀ index, 512 * index < size.toNat →
    ∃ data, fs.fileSector content start index = some data
  distinct : ∀ left right, 512 * (left * fs.sectorsPerCluster.toNat) < size.toNat →
    512 * (right * fs.sectorsPerCluster.toNat) < size.toNat →
    fs.clusterAt content start left = fs.clusterAt content start right → left = right

end Filesystem

namespace File

variable {fs : Filesystem} {content : UInt64 → Sector} {start size : UInt32} {file : File}

theorem followChain_reliable {sectors : Nat} {data : Sector}
    (positive : 0 < fs.sectorsPerCluster) (passed : file.Passed fs content sectors)
    (found : fs.fileSector content file.startCluster sectors = some data) :
    ∃ file', file.followChain fs (.reliable content) () = .ok (.ok file', ()) := by
  have some_room : 0 < fs.sectorsPerCluster.toNat := UInt32.lt_iff_toNat_lt.mp positive
  rcases passed with ⟨index, active, total, _⟩
  unfold followChain
  split_ifs with used
  · have quotient : sectors / fs.sectorsPerCluster.toNat = index + 1 := by
      rw [← total, used, UInt32.toNat_toUInt64, ← Nat.succ_mul]
      exact Nat.mul_div_cancel _ some_room
    rw [Filesystem.fileSector, quotient, Filesystem.clusterAt, active] at found
    cases next : fs.successor content file.activeCluster with
    | none => simp [next] at found
    | some cluster =>
      rw [Filesystem.nextCluster_of_successor next]
      exact ⟨_, rfl⟩
  · exact ⟨file, rfl⟩

theorem read_reliable (positive : 0 < fs.sectorsPerCluster)
    (readable : ∀ index, 512 * index < size.toNat →
      ∃ data, fs.fileSector content start index = some data)
    (coherent : file.Coherent fs content start size)
    (before : file.position.toNat < size.toNat) :
    ∃ count data next, file.read fs (.reliable content) () = .ok (.ok (count, data), next, ()) := by
  have unfinished : ¬ file.position ≥ file.size := by
    rw [coherent.sized]
    exact UInt32.not_le.mpr (UInt32.lt_iff_toNat_lt.mpr before)
  have passed := coherent.passed_whole before
  rcases readable (file.position.toNat / 512) (by omega) with ⟨data, found⟩
  rw [← coherent.startCluster] at found
  rcases followChain_reliable positive passed found with ⟨file', followed⟩
  have ready : file.Ready fs content (file.position.toNat / 512) file' :=
    followChain_ready positive
      (show file.Passed fs (SectorDevice.reliable content).content _ from passed) followed
  have loaded : fs.read (.reliable content)
      ((fs.firstSectorOfCluster file'.activeCluster).toUInt64 + file'.sectorOffset) () =
      (some data, ()) := by
    rw [ready.fileSector] at found
    exact Prod.ext found rfl
  rw [File.read, if_neg unfinished, followed]
  simp only [loaded]
  split_ifs
  · exact ⟨_, _, _, rfl⟩
  · exact ⟨_, _, _, rfl⟩

end File

end HypervisorFirmware.Fat
