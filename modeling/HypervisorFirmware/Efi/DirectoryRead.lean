import HypervisorFirmware.Efi.Types
import HypervisorFirmware.Fat.Separators

/-! # Reading a directory

The `read` of `efi/file.rs` on a directory, which fills a buffer with the `FileInfo`
of the next entry. The iterator is past that entry by the time that the buffer turns
out to be too small for it. -/

namespace HypervisorFirmware.Efi

open Fat

/-! ## The info of an entry -/

structure FileInfo where
  size : UInt64
  fileSize : UInt64
  physicalSize : UInt64
  attr : UInt64
  fileName : List UInt16
  deriving DecidableEq

namespace FileInfo

abbrev sizeOf : Nat := 600

def longName (de : DirectoryEntry) : LongName :=
  if de.longName.toList.getD 0 0 = 0 then
    Vector.ofFn fun index =>
      if index.val < efiFatShortNameLen + 1 then (de.name.toList.getD index.val 0).toUInt16
      else de.longName.get index
  else de.longName

def sizeWith (nameLen : Nat) : Nat := sizeOf - efiPathStringLength * 2 + (nameLen + 1) * 2

def ofEntry (de : DirectoryEntry) (name : List UInt16) : FileInfo where
  size := UInt64.ofNat (sizeWith name.length)
  fileSize :=
    match de.fileType with
    | .file => de.size.toUInt64
    | .directory => 4096
  physicalSize :=
    match de.fileType with
    | .file => de.size.toUInt64
    | .directory => 4096
  attr := de.attr.toUInt64
  fileName := name ++ [0]

def init (de : DirectoryEntry) (maxSize : Nat) : Exec (Except Nat (FileInfo × Nat)) := do
  let filename ← EfiStr.OsStr.fromU16SliceWithNul (longName de).toList
  let size := sizeWith filename.length
  if maxSize < size then return .error size
  else return .ok (ofEntry de filename, size)

def describe (de : DirectoryEntry) : Option FileInfo :=
  (EfiStr.OsStr.fromU16SliceWithNul (longName de).toList).toOption.map (ofEntry de)

def total (info : FileInfo) : Nat := sizeOf - efiPathStringLength * 2 + info.fileName.length * 2

theorem init_none {de : DirectoryEntry} (endless : describe de = none) (maxSize : Nat) :
    init de maxSize = .error .undefined := by
  have unterminated : ¬∃ unit ∈ (longName de).toList, unit &&& 0xff = 0 := by
    intro stops
    rw [describe, EfiStr.OsStr.fromU16SliceWithNul_eq stops] at endless
    cases endless
  rw [init, EfiStr.OsStr.fromU16SliceWithNul_endless unterminated]
  rfl

theorem init_some {de : DirectoryEntry} {info : FileInfo} (described : describe de = some info)
    (maxSize : Nat) :
    init de maxSize =
      .ok (if maxSize < info.total then .error info.total else .ok (info, info.total)) := by
  rw [init]
  cases name : EfiStr.OsStr.fromU16SliceWithNul (longName de).toList with
  | error fault => simp [describe, name, Except.toOption] at described
  | ok filename =>
    have same : ofEntry de filename = info := by
      simpa [describe, name, Except.toOption] using described
    have size : sizeWith filename.length = info.total := by
      rw [← same, sizeWith, total, ofEntry, List.length_append, List.length_singleton]
    rw [Exec.ok_bind]
    dsimp only
    rw [size, same]
    split_ifs
    · rfl
    · rfl

end FileInfo

/-! ## Reading -/

inductive InfoBuffer
  | unchanged
  /-- `size`, `attribute` and the first unit of the name are zero. -/
  | ended
  | info (info : FileInfo)
  deriving DecidableEq

structure ReadResponse where
  status : Status
  size : Nat
  buffer : InfoBuffer
  deriving DecidableEq

variable (fs : Filesystem) (device : SectorDevice Unit) (fuel : Nat)

def readDirectory (dir : Directory) (size : Nat) : Exec (ReadResponse × Directory) := do
  match ← dir.nextEntry fs device fuel with
  | (.error .endOfFile, dir) =>
    -- The fields are written whether or not they are inside of the buffer.
    if size < FileInfo.sizeWith 0 then .error .undefined
    else return (⟨.success, 0, .ended⟩, dir)
  | (.error _, dir) => return (⟨.deviceError, size, .unchanged⟩, dir)
  | (.ok de, dir) =>
    match ← FileInfo.init de size with
    | .ok (info, totalSize) => return (⟨.success, totalSize, .info info⟩, dir)
    | .error needSize => return (⟨.bufferTooSmall, needSize, .unchanged⟩, dir)

def readAll : List Nat → Directory → Exec (List FileInfo × Bool)
  | [], _ => .ok ([], false)
  | size :: sizes, dir => do
      let (response, dir) ← readDirectory fs device fuel dir size
      match response.buffer with
      | .ended => return ([], true)
      | .unchanged => readAll sizes dir
      | .info info =>
        let (infos, ended) ← readAll sizes dir
        return (info :: infos, ended)

inductive Yields : Directory → List DirectoryEntry → Prop
  | ended {dir next : Directory} : dir.nextEntry fs device fuel = .ok (.error .endOfFile, next) →
      Yields dir []
  | entry {dir next : Directory} {entry : DirectoryEntry} {rest : List DirectoryEntry} :
      dir.nextEntry fs device fuel = .ok (.ok entry, next) → Yields next rest →
      Yields dir (entry :: rest)

/-! ## Losing nothing -/

/-- If a buffer is too small, then a second read, with a buffer of the size that the first
one asks for, delivers the entry that the handle was at. -/
def RetrySucceeds (dir : Directory) (size : Nat) : Prop :=
  ∀ response next, readDirectory fs device fuel dir size = .ok (response, next) →
    response.status = .bufferTooSmall →
    ∃ entry info after, dir.nextEntry fs device fuel = .ok (.ok entry, next) ∧
      FileInfo.describe entry = some info ∧
      readDirectory fs device fuel next response.size =
        .ok (⟨.success, response.size, .info info⟩, after)

/-- However many reads are made, they return, what they have delivered is the beginning
of the directory, and it is the whole directory once the end is reported. -/
def LosesNothing (dir : Directory) (entries : List DirectoryEntry) (sizes : Nat → Nat) : Prop :=
  ∀ reads, ∃ delivered ended,
    readAll fs device fuel ((List.range reads).map sizes) dir = .ok (delivered, ended) ∧
    delivered.map some <+: entries.map FileInfo.describe ∧
    (ended = true → delivered.map some = entries.map FileInfo.describe)

def Fits (entry : DirectoryEntry) (size : Nat) : Prop :=
  ∃ info, FileInfo.describe entry = some info ∧ info.total ≤ size

def TooSmall (dir : Directory) (size : Nat) : Prop :=
  ∃ entry next info, dir.nextEntry fs device fuel = .ok (.ok entry, next) ∧
    FileInfo.describe entry = some info ∧ size < info.total

/-- The entry behind the one that the handle is at looks the same. -/
def Repeats (dir : Directory) : Prop :=
  ∃ entry next again after, dir.nextEntry fs device fuel = .ok (.ok entry, next) ∧
    next.nextEntry fs device fuel = .ok (.ok again, after) ∧
    FileInfo.describe again = FileInfo.describe entry

/-- Each read has room for the entry it meets, and the one at the end for the fields that
report the end. -/
def RoomForAll : List DirectoryEntry → (Nat → Nat) → Prop
  | [], sizes => FileInfo.sizeWith 0 ≤ sizes 0
  | entry :: rest, sizes => Fits entry (sizes 0) ∧ RoomForAll rest fun read => sizes (read + 1)

variable {fs device fuel} {dir next : Directory} {entry : DirectoryEntry} {info : FileInfo}
  {entries : List DirectoryEntry}

/-! ## One read -/

theorem readDirectory_end (found : dir.nextEntry fs device fuel = .ok (.error .endOfFile, next))
    (size : Nat) :
    readDirectory fs device fuel dir size =
      if size < FileInfo.sizeWith 0 then .error .undefined
      else .ok (⟨.success, 0, .ended⟩, next) := by
  rw [readDirectory, found]
  rfl

theorem readDirectory_error {error : Error} (found : dir.nextEntry fs device fuel =
    .ok (.error error, next)) (other : error ≠ .endOfFile) (size : Nat) :
    readDirectory fs device fuel dir size = .ok (⟨.deviceError, size, .unchanged⟩, next) := by
  rw [readDirectory, found]
  cases error with
  | endOfFile => exact absurd rfl other
  | _ => rfl

theorem readDirectory_endless (found : dir.nextEntry fs device fuel = .ok (.ok entry, next))
    (endless : FileInfo.describe entry = none) (size : Nat) :
    readDirectory fs device fuel dir size = .error .undefined := by
  rw [readDirectory, found, Exec.ok_bind]
  dsimp only
  rw [FileInfo.init_none endless]
  rfl

theorem readDirectory_entry (found : dir.nextEntry fs device fuel = .ok (.ok entry, next))
    (described : FileInfo.describe entry = some info) (size : Nat) :
    readDirectory fs device fuel dir size =
      .ok (if size < info.total then ⟨.bufferTooSmall, info.total, .unchanged⟩
        else ⟨.success, info.total, .info info⟩, next) := by
  rw [readDirectory, found, Exec.ok_bind]
  dsimp only
  rw [FileInfo.init_some described]
  split_ifs
  · rfl
  · rfl

theorem readDirectory_cases {size : Nat} {response : ReadResponse}
    (returned : readDirectory fs device fuel dir size = .ok (response, next)) :
    response = ⟨.success, 0, .ended⟩ ∨ response = ⟨.deviceError, size, .unchanged⟩ ∨
      ∃ entry info, dir.nextEntry fs device fuel = .ok (.ok entry, next) ∧
        FileInfo.describe entry = some info ∧
        response = if size < info.total then ⟨.bufferTooSmall, info.total, .unchanged⟩
          else ⟨.success, info.total, .info info⟩ := by
  cases found : dir.nextEntry fs device fuel with
  | error fault => simp [readDirectory, found] at returned
  | ok result =>
    obtain ⟨outcome, after⟩ := result
    cases outcome with
    | error error =>
      by_cases ended : error = .endOfFile
      · rw [ended] at found
        rw [readDirectory_end found] at returned
        split_ifs at returned
        cases returned
        exact .inl rfl
      · rw [readDirectory_error found ended] at returned
        cases returned
        exact .inr (.inl rfl)
    | ok entry =>
      cases described : FileInfo.describe entry with
      | none =>
        rw [readDirectory_endless found described] at returned
        cases returned
      | some info =>
        rw [readDirectory_entry found described] at returned
        cases returned
        exact .inr (.inr ⟨entry, info, rfl, described, rfl⟩)

theorem retrySucceeds_iff (size : Nat) :
    RetrySucceeds fs device fuel dir size ↔
      (TooSmall fs device fuel dir size → Repeats fs device fuel dir) := by
  constructor
  · rintro retry ⟨entry, next, info, found, described, small⟩
    have returned := readDirectory_entry found described size
    rw [if_pos small] at returned
    obtain ⟨same, info', after, found', described', second⟩ := retry _ _ returned rfl
    rw [found] at found'
    cases found'
    rw [described] at described'
    cases described'
    rcases readDirectory_cases second with
      ended | failed | ⟨again, info', found', described', filled⟩
    · exact absurd (congrArg ReadResponse.buffer ended) (by simp)
    · exact absurd (congrArg ReadResponse.buffer failed) (by simp)
    · split_ifs at filled
      · exact absurd (congrArg ReadResponse.buffer filled) (by simp)
      · have same : info = info' := InfoBuffer.info.inj (congrArg ReadResponse.buffer filled)
        rw [← same] at described'
        exact ⟨entry, next, again, after, found, found', described'.trans described.symm⟩
  · intro repeats response next returned status
    rcases readDirectory_cases returned with rfl | rfl | ⟨entry, info, found, described, filled⟩
    · cases status
    · cases status
    · split_ifs at filled with small
      · rw [filled]
        obtain ⟨entry', next', again, after, found', behind, same⟩ :=
          repeats ⟨entry, next, info, found, described, small⟩
        rw [found] at found'
        cases found'
        have second := readDirectory_entry behind (same.trans described) info.total
        rw [if_neg (Nat.lt_irrefl _)] at second
        exact ⟨entry, info, after, found, described, second⟩
      · rw [filled] at status
        cases status

/-! ## All reads -/

theorem map_range_succ (sizes : Nat → Nat) (reads : Nat) : (List.range (reads + 1)).map sizes =
      sizes 0 :: (List.range reads).map fun read => sizes (read + 1) := by
  rw [List.range_succ_eq_map, List.map_cons, List.map_map]
  rfl

section

variable (found : dir.nextEntry fs device fuel = .ok (.ok entry, next))
  (described : FileInfo.describe entry = some info) {size : Nat}

include found described

theorem readAll_small (small : size < info.total) (sizes : List Nat) :
    readAll fs device fuel (size :: sizes) dir = readAll fs device fuel sizes next := by
  rw [readAll, readDirectory_entry found described, if_pos small]
  rfl

theorem readAll_room (room : info.total ≤ size) (sizes : List Nat) :
    readAll fs device fuel (size :: sizes) dir = do
      let (infos, ended) ← readAll fs device fuel sizes next
      return (info :: infos, ended) := by
  rw [readAll, readDirectory_entry found described, if_neg (Nat.not_lt.mpr room)]
  rfl

end

theorem readAll_end (found : dir.nextEntry fs device fuel = .ok (.error .endOfFile, next))
    (size : Nat) (sizes : List Nat) :
    readAll fs device fuel (size :: sizes) dir =
      if size < FileInfo.sizeWith 0 then .error .undefined else .ok ([], true) := by
  rw [readAll, readDirectory_end found]
  split_ifs
  · rfl
  · rfl

theorem Yields.losesNothing (yields : Yields fs device fuel dir entries) {sizes : Nat → Nat}
    (room : RoomForAll entries sizes) : LosesNothing fs device fuel dir entries sizes := by
  induction yields generalizing sizes with
  | ended found =>
    intro reads
    cases reads with
    | zero => exact ⟨[], false, rfl, List.nil_prefix, fun ended => nomatch ended⟩
    | succ reads =>
      rw [map_range_succ, readAll_end found, if_neg (Nat.not_lt.mpr room)]
      exact ⟨[], true, rfl, List.prefix_rfl, fun _ => rfl⟩
  | entry found _ induction =>
    intro reads
    cases reads with
    | zero => exact ⟨[], false, rfl, List.nil_prefix, fun ended => nomatch ended⟩
    | succ reads =>
      obtain ⟨⟨info, described, fits⟩, room⟩ := room
      obtain ⟨delivered, ended, returned, beginning, whole⟩ := induction room reads
      rw [map_range_succ, readAll_room found described fits, returned]
      refine ⟨info :: delivered, ended, rfl, ?_, fun ends => ?_⟩
      · rw [List.map_cons, List.map_cons, described, List.prefix_cons_inj]
        exact beginning
      · rw [List.map_cons, List.map_cons, described, whole ends]

theorem Yields.readAll_whole (yields : Yields fs device fuel dir entries) {sizes : Nat → Nat}
    {delivered : List FileInfo} {ended : Bool}
    (returned : readAll fs device fuel ((List.range (entries.length + 1)).map sizes) dir =
      .ok (delivered, ended)) :
    ended = true ∧ delivered.length ≤ entries.length ∧
      (delivered.length = entries.length → RoomForAll entries sizes) := by
  induction yields generalizing sizes delivered with
  | ended found =>
    rw [map_range_succ, readAll_end found] at returned
    split_ifs at returned with small
    cases returned
    exact ⟨rfl, Nat.le_refl 0, fun _ => Nat.le_of_not_lt small⟩
  | @entry dir next entry rest found _ induction =>
    rw [List.length_cons, map_range_succ] at returned
    rw [List.length_cons]
    cases described : FileInfo.describe entry with
    | none =>
      rw [readAll, readDirectory_endless found described] at returned
      cases returned
    | some info =>
      by_cases small : sizes 0 < info.total
      · rw [readAll_small found described small] at returned
        obtain ⟨ends, fewer, _⟩ := induction returned
        exact ⟨ends, Nat.le_succ_of_le fewer, fun all => by omega⟩
      · have fits := Nat.le_of_not_lt small
        rw [readAll_room found described fits] at returned
        cases others : readAll fs device fuel
            ((List.range (rest.length + 1)).map fun read => sizes (read + 1)) next with
        | error fault =>
          rw [others] at returned
          cases returned
        | ok result =>
          obtain ⟨infos, last⟩ := result
          rw [others] at returned
          cases returned
          obtain ⟨ends, fewer, room⟩ := induction others
          refine ⟨ends, Nat.succ_le_succ fewer, fun all => ?_⟩
          exact ⟨⟨info, described, fits⟩, room (Nat.succ_injective all)⟩

theorem Yields.losesNothing_iff (yields : Yields fs device fuel dir entries) (sizes : Nat → Nat) :
    LosesNothing fs device fuel dir entries sizes ↔ RoomForAll entries sizes := by
  constructor
  · intro nothing
    obtain ⟨delivered, ended, returned, _, whole⟩ := nothing (entries.length + 1)
    obtain ⟨ends, _, room⟩ := yields.readAll_whole returned
    apply room
    simpa using congrArg List.length (whole ends)
  · exact yields.losesNothing

theorem yields_of_lists (positive : 0 < fs.sectorsPerCluster)
    (lists : dir.Lists fs device fuel ⟨entries, .ok .endOfFile⟩) :
    Yields fs device fuel dir entries := by
  induction entries generalizing dir with
  | nil =>
    obtain ⟨next, found, _⟩ := lists.nextEntry positive
    exact .ended found
  | cons entry rest induction =>
    obtain ⟨next, found, remaining⟩ := lists.nextEntry positive
    exact .entry found (induction remaining)

/-- A read with a buffer that is too small loses the entry, unless the next one looks the
same. All entries of a directory are delivered, in their order, if and only if every read
has room for what it meets. -/
theorem readDirectory_exact_iff_room (fs : Filesystem) (device : SectorDevice Unit) (fuel : Nat)
    (dir : Directory) :
    (∀ size, RetrySucceeds fs device fuel dir size ↔
      (TooSmall fs device fuel dir size → Repeats fs device fuel dir)) ∧
    ∀ entries, Yields fs device fuel dir entries →
      ∀ sizes, LosesNothing fs device fuel dir entries sizes ↔ RoomForAll entries sizes :=
  ⟨retrySucceeds_iff, fun _ yields sizes => yields.losesNothing_iff sizes⟩

namespace TwoFiles

open DirectoryImage

def records : List Record := [letterRecord 65, letterRecord 66]

abbrev image : Filesystem := volume.toFilesystem

abbrev sectors : SectorDevice Unit := .reliable (content records)

def file (letter : UInt8) : DirectoryEntry := (letterRecord letter).entry emptyName

def letterInfo (letter : UInt16) : FileInfo where
  size := 84
  fileSize := 0
  physicalSize := 0
  attr := 0
  fileName := [letter, 0]

theorem describe_A : FileInfo.describe (file 65) = some (letterInfo 65) := by decide +kernel

theorem describe_B : FileInfo.describe (file 66) = some (letterInfo 66) := by decide +kernel

theorem yields : Yields image sectors 40 (getDirectory 2) [file 65, file 66] := by
  have inSequence : ∀ record ∈ records, record.InSequence := by
    intro record member
    have listed : record = letterRecord 65 ∨ record = letterRecord 66 := by
      simpa [records] using member
    rcases listed with rfl | rfl
    · exact fun part => absurd part (by decide)
    · exact fun part => absurd part (by decide)
  exact yields_of_lists (by decide) (lists_root (by decide) inSequence (by decide))

theorem delivered_with_room :
    Yields image sectors 40 (getDirectory 2) [file 65, file 66] ∧
      LosesNothing image sectors 40 (getDirectory 2) [file 65, file 66] fun _ => 84 :=
  ⟨yields, ((readDirectory_exact_iff_room image sectors 40 (getDirectory 2)).2 _ yields _).mpr
    ⟨⟨letterInfo 65, describe_A, by decide⟩, ⟨letterInfo 66, describe_B, by decide⟩,
      Nat.le_of_ble_eq_true rfl⟩⟩

/-- With two bytes less than the info of `A` needs the first read asks for 84 bytes, and a
second read with that many delivers `B`. `A` is not delivered, and the end of the directory
is written over the end of a buffer that has no room for it. -/
theorem first_file_lost :
    Yields image sectors 40 (getDirectory 2) [file 65, file 66] ∧
      FileInfo.describe (file 65) = some (letterInfo 65) ∧
      (∃ next after, readDirectory image sectors 40 (getDirectory 2) 82 =
          .ok (⟨.bufferTooSmall, 84, .unchanged⟩, next) ∧
        readDirectory image sectors 40 next 84 =
          .ok (⟨.success, 84, .info (letterInfo 66)⟩, after)) ∧
      readAll image sectors 40 [82, 84, 84] (getDirectory 2) = .ok ([letterInfo 66], true) ∧
      readAll image sectors 40 [84, 84, 0] (getDirectory 2) = .error .undefined := by
  refine ⟨yields, describe_A, ?_⟩
  cases yields with
  | entry first later =>
    cases later with
    | entry second last =>
      cases last with
      | ended third =>
        refine ⟨⟨_, _, readDirectory_entry first describe_A 82,
          readDirectory_entry second describe_B 84⟩, ?_, ?_⟩
        · rw [readAll_small first describe_A (by decide),
            readAll_room second describe_B (by decide), readAll_end third,
            if_neg (by decide)]
          rfl
        · rw [readAll_room first describe_A (by decide),
            readAll_room second describe_B (by decide), readAll_end third,
            if_pos (by decide)]
          rfl

end TwoFiles

end HypervisorFirmware.Efi
