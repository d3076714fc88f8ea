import HypervisorFirmware.Efi.FileHandles
import HypervisorFirmware.EfiStr.Decoding
import HypervisorFirmware.Fat.PathImage

/-! # Opening a file by its path

`open` of `efi/file.rs`: the path goes from 16-bit units through a buffer of 256 bytes to
the string that the file system looks up. -/

namespace HypervisorFirmware.Efi

open EfiStr (Surrogate Overflows kept keptText decode utf8 ValidUtf8)
open Fat (Volume SectorDevice OFileDirectory Directory route)

structure Char16Path where
  units : List UInt16
  nonzero : ∀ unit ∈ units, unit ≠ 0

/-! ## The source -/

def unwrapUtf8 (bytes : List UInt8) : Exec (List Char) :=
  match bytes.toByteArray.utf8Decode? with
  | some text => .ok text.toList
  | none => .error .panicked

def decodePath (pathIn : Char16Path) : Exec (List Char) := do
  let pathOs ← EfiStr.OsStr.fromChar16WithNulMut (pathIn.units ++ [0])
  let (decoded, path) := decode pathOs (List.replicate 256 0)
  let pathLen := match decoded with
    | .ok length => length
    | .error _ => 0
  unwrapUtf8 (path.take pathLen)

structure FileWrapper where
  address : UInt64
  ofile : OFileDirectory

variable (volume : Volume) (device : SectorDevice Unit) (fuel : Nat)

def lacksParent (fileIn : OFileDirectory) (path : List Char) : Exec Bool :=
  if path = ['.', '.'] then do
    match ← fileIn.getParentDirEnt volume.toFilesystem device fuel with
    | .ok _ => return false
    | .error _ => return true
  else return false

/-- The call, where `malloc` finds this memory for the wrapper. -/
def openFile (memory : Option UInt64) (fileIn : OFileDirectory) (pathIn : Char16Path) :
    Exec (Except Status FileWrapper) := do
  let path ← decodePath pathIn
  openDecoded (lacksParent volume device fuel fileIn path)
    (volume.openPath device fuel fileIn path) fun f =>
      match memory with
      | none => return .error .outOfResources
      | some address => return .ok ⟨address, f⟩

/-! ## What a path denotes -/

/-- The characters of UTF-16, in which a surrogate has to be one of a pair. -/
def utf16 : List UInt16 → Option (List Char)
  | [] => some []
  | unit :: rest =>
    if Surrogate unit then
      match rest with
      | [] => none
      | low :: rest =>
        if unit.toNat < 0xdc00 ∧ Surrogate low ∧ 0xdc00 ≤ low.toNat then
          (utf16 rest).map fun text =>
            Char.ofNat (0x10000 + (unit.toNat - 0xd800) * 0x400 + (low.toNat - 0xdc00)) :: text
        else none
    else (utf16 rest).map fun text => Char.ofNat unit.toNat :: text

variable {volume device fuel}

/-- The call returns an error status, or the handle that `Filesystem::open` has for the
string that the path denotes. It does not return only if that call does not return. -/
def OpensDenoted (path : Char16Path) : Prop :=
  ∀ (volume : Volume) (device : SectorDevice Unit) (fuel : Nat) (memory : Option UInt64)
    (handle : OFileDirectory) (dir : Directory), handle.dir = some dir →
    match openFile volume device fuel memory handle path with
    | .ok (.error status) => status.isError = true
    | .ok (.ok wrapper) => ∃ text, utf16 path.units = some text ∧
        volume.openPath device fuel handle text = .ok (.ok wrapper.ofile)
    | .error fault => ∃ text, utf16 path.units = some text ∧
        volume.openPath device fuel handle text = .error fault

namespace Char16Path

variable (path : Char16Path)

def seenUnits : List UInt16 := EfiStr.OsStr.beforeLowNul path.units

/-- What is left of a path: nothing, if what is seen of it does not fit into 256 bytes, and
otherwise the characters of one byte and of three. -/
inductive Leaves : List Char → Prop
  | nothing : Overflows path.seenUnits 256 → Leaves []
  | text : ¬Overflows path.seenUnits 256 → (∀ unit ∈ path.seenUnits, ¬Surrogate unit) →
      Leaves (keptText path.seenUnits)

/-- What is left of the path leads where the string that it denotes leads. -/
def KeepsRoute : Prop :=
  ∃ left text, path.Leaves left ∧ utf16 path.units = some text ∧ route left = route text

end Char16Path

/-! ## The decoded path -/

theorem fromChar16WithNulMut_nul (units : List UInt16) :
    EfiStr.OsStr.fromChar16WithNulMut (units ++ [0]) = .ok (EfiStr.OsStr.beforeLowNul units) := by
  rw [EfiStr.OsStr.fromChar16WithNulMut_eq ⟨0, by simp, rfl⟩, EfiStr.OsStr.beforeLowNul,
    EfiStr.OsStr.beforeLowNul, List.takeWhile_append]
  split_ifs with whole
  · rw [List.takeWhile_cons_of_neg (by decide), List.append_nil,
      (List.takeWhile_prefix _).eq_of_length whole]
  · rfl

theorem unwrapUtf8_utf8 (text : List Char) : unwrapUtf8 (utf8 text) = .ok text := by
  have decoded : (utf8 text).toByteArray.utf8Decode? = some text.toArray :=
    List.utf8Decode?_utf8Encode
  rw [unwrapUtf8, decoded]

theorem unwrapUtf8_invalid {bytes : List UInt8} (invalid : ¬ValidUtf8 bytes) :
    unwrapUtf8 bytes = .error .panicked := by
  rw [unwrapUtf8]
  cases decoded : bytes.toByteArray.utf8Decode? with
  | none => rfl
  | some text =>
    have valid : bytes.toByteArray.IsValidUTF8 := by
      rw [← ByteArray.isSome_utf8Decode?_iff, decoded]
      rfl
    obtain ⟨text, same⟩ := valid
    exact absurd ⟨text, List.toByteArray_inj.mp same⟩ invalid

theorem Char16Path.Leaves.storable {path : Char16Path} {left : List Char}
    (leaves : path.Leaves left) : Fat.Storable left := by
  cases leaves with
  | nothing _ => exact ⟨by decide, by simp⟩
  | text fits scalars =>
    constructor
    · have characters := EfiStr.length_le_utf8 (keptText path.seenUnits)
      have bytes := EfiStr.length_kept_le_room fits
      rw [EfiStr.kept_eq_utf8 scalars] at bytes
      exact Nat.lt_of_le_of_lt (Nat.le_trans characters bytes) (by decide)
    · intro character member
      obtain ⟨unit, kept, rfl⟩ := List.mem_map.mp member
      have seen := List.mem_of_mem_filter kept
      obtain ⟨character, below, rfl⟩ := EfiStr.exists_character (scalars unit seen)
      rw [EfiStr.ofNat_unit below]
      exact ⟨below, by simpa using List.mem_takeWhile_imp seen⟩

theorem decodePath_cases (path : Char16Path) :
    (∃ left, path.Leaves left ∧ decodePath path = .ok left) ∨
      ((∀ left, ¬path.Leaves left) ∧ decodePath path = .error .panicked) := by
  have outcome := EfiStr.decodeFrom_cases path.seenUnits [] (List.replicate 256 0)
  simp only [List.nil_append, List.length_nil, List.length_replicate] at outcome
  have decoded : decodePath path = unwrapUtf8
      ((decode path.seenUnits (List.replicate 256 0)).2.take
        (match (decode path.seenUnits (List.replicate 256 0)).1 with
          | .ok length => length
          | .error _ => 0)) := by
    rw [decodePath, fromChar16WithNulMut_nul]
    rfl
  rcases outcome with ⟨fits, rest, returned⟩ | ⟨overflows, buffer, returned⟩
  · rw [decode, returned] at decoded
    simp only [List.take_left] at decoded
    by_cases scalars : ∀ unit ∈ path.seenUnits, ¬Surrogate unit
    · rw [EfiStr.kept_eq_utf8 scalars, unwrapUtf8_utf8] at decoded
      exact .inl ⟨_, .text fits scalars, decoded⟩
    · rw [unwrapUtf8_invalid fun valid => scalars (EfiStr.scalars_of_validUtf8_kept valid)]
        at decoded
      refine .inr ⟨fun left leaves => ?_, decoded⟩
      cases leaves with
      | nothing overflows => exact fits overflows
      | text _ all => exact scalars all
  · rw [decode, returned] at decoded
    exact .inl ⟨[], .nothing overflows, decoded⟩

/-! ## The opened file -/

variable {memory : Option UInt64} {handle file : OFileDirectory} {path : Char16Path}
  {left : List Char}

theorem openFile_decoded (decoded : decodePath path = .ok left) :
    openFile volume device fuel memory handle path =
      openDecoded (lacksParent volume device fuel handle left)
        (volume.openPath device fuel handle left) fun f =>
          match memory with
          | none => return .error .outOfResources
          | some address => return .ok ⟨address, f⟩ := by
  rw [openFile, decoded]
  rfl

theorem lacksParent_cases (handle : OFileDirectory) (left : List Char) :
    lacksParent volume device fuel handle left = .ok false ∨
      (∃ error, lacksParent volume device fuel handle left = .ok true ∧
        volume.openPath device fuel handle left = .ok (.error error)) ∨
      ∃ fault, lacksParent volume device fuel handle left = .error fault ∧
        volume.openPath device fuel handle left = .error fault := by
  rw [lacksParent]
  split_ifs with parent
  · rw [parent, Volume.openPath, if_neg (by decide), if_pos rfl, Volume.openParent]
    cases handle.getParentDirEnt volume.toFilesystem device fuel with
    | error fault => exact .inr (.inr ⟨fault, rfl, rfl⟩)
    | ok result =>
      cases result with
      | error error => exact .inr (.inl ⟨error, rfl, rfl⟩)
      | ok entry => exact .inl rfl
  · exact .inl rfl

theorem openFile_cases (decoded : decodePath path = .ok left) :
    (∃ status, openFile volume device fuel memory handle path = .ok (.error status) ∧
      status.isError = true) ∨
    (∃ address file, openFile volume device fuel memory handle path = .ok (.ok ⟨address, file⟩) ∧
      volume.openPath device fuel handle left = .ok (.ok file)) ∨
    ∃ fault, openFile volume device fuel memory handle path = .error fault ∧
      volume.openPath device fuel handle left = .error fault := by
  rw [openFile_decoded decoded, openDecoded]
  rcases lacksParent_cases handle left with has | ⟨error, lacks, _⟩ | ⟨fault, faulted, opened⟩
  · rw [has]
    cases opened : volume.openPath device fuel handle left with
    | error fault => exact .inr (.inr ⟨fault, rfl, rfl⟩)
    | ok result =>
      cases result with
      | error error =>
        left
        cases error with
        | notFound => exact ⟨.notFound, rfl, rfl⟩
        | _ => exact ⟨.deviceError, rfl, rfl⟩
      | ok file =>
        cases memory with
        | none => exact .inl ⟨.outOfResources, rfl, rfl⟩
        | some address => exact .inr (.inl ⟨address, file, rfl, rfl⟩)
  · rw [lacks]
    exact .inl ⟨.invalidParameter, rfl, rfl⟩
  · rw [faulted]
    exact .inr (.inr ⟨fault, rfl, opened⟩)

theorem openFile_opened (decoded : decodePath path = .ok left)
    (opened : volume.openPath device fuel handle left = .ok (.ok file)) (address : UInt64) :
    openFile volume device fuel (some address) handle path = .ok (.ok ⟨address, file⟩) := by
  rw [openFile_decoded decoded, openDecoded]
  rcases lacksParent_cases handle left with has | ⟨error, _, failed⟩ | ⟨fault, _, faulted⟩
  · rw [has, opened]
    rfl
  · rw [failed] at opened
    cases opened
  · rw [faulted] at opened
    cases opened

/-- The caller gets the interface in the wrapper that is returned here. -/
theorem respond_openFile (layout : FileLayout) {allocator next : Alloc.Allocator}
    {noParent : Bool} {lookup : Except Fat.Error OFileDirectory}
    (found : layout.createFile allocator = .ok (memory.elim (.error .outOfResources) .ok, next))
    (decoded : decodePath path = .ok left)
    (lacks : lacksParent volume device fuel handle left = .ok noParent)
    (looked : volume.openPath device fuel handle left = .ok lookup) :
    ∃ opened final, openFile volume device fuel memory handle path = .ok opened ∧
      layout.openFile noParent (lookup.map fun _ => ()) allocator =
        .ok (layout.respond (opened.map FileWrapper.address), final) := by
  rw [openFile_decoded decoded, openDecoded, lacks, looked]
  cases noParent with
  | true => exact ⟨.error .invalidParameter, allocator, rfl, rfl⟩
  | false =>
    cases lookup with
    | error error =>
      cases error with
      | notFound => exact ⟨.error .notFound, allocator, rfl, rfl⟩
      | _ => exact ⟨.error .deviceError, allocator, rfl, rfl⟩
    | ok file =>
      have created : layout.openFile false (.ok ()) allocator =
          .ok (layout.respond (memory.elim (.error .outOfResources) .ok), next) := by
        change layout.returnFile allocator = _
        rw [FileLayout.returnFile, found]
        rfl
      cases memory with
      | none => exact ⟨.error .outOfResources, next, rfl, created⟩
      | some address => exact ⟨.ok ⟨address, file⟩, next, rfl, created⟩

theorem Char16Path.Leaves.unique {other : List Char} (leaves : path.Leaves left)
    (leaves' : path.Leaves other) : other = left := by
  cases leaves with
  | nothing overflows =>
    cases leaves' with
    | nothing _ => rfl
    | text fits _ => exact absurd overflows fits
  | text fits _ =>
    cases leaves' with
    | nothing overflows => exact absurd overflows fits
    | text _ _ => rfl

theorem opensDenoted_of_leaves (leaves : path.Leaves left)
    (decoded : decodePath path = .ok left) : OpensDenoted path ↔ path.KeepsRoute := by
  constructor
  · intro opens
    obtain ⟨volume, device, fuel, handle, dir, file, isDir, opened, only⟩ :=
      Fat.exists_separating leaves.storable
    have outcome := opens volume device fuel (some 0) handle dir isDir
    rw [openFile_opened decoded opened 0] at outcome
    obtain ⟨text, denoted, same⟩ := outcome
    exact ⟨left, text, leaves, denoted, (only text same).symm⟩
  · rintro ⟨other, text, leaves', denoted, same⟩ volume device fuel memory handle dir _
    rw [leaves.unique leaves'] at same
    have reference : volume.openPath device fuel handle left =
        volume.openPath device fuel handle text := Fat.openPath_route same handle
    rcases openFile_cases decoded with
      ⟨status, returned, error⟩ | ⟨address, file, returned, opened⟩ | ⟨fault, faulted, opened⟩
    · rw [returned]
      exact error
    · rw [returned]
      exact ⟨text, denoted, reference.symm.trans opened⟩
    · rw [faulted]
      exact ⟨text, denoted, reference.symm.trans opened⟩

theorem not_opensDenoted_of_panicked (panicked : decodePath path = .error .panicked) :
    ¬OpensDenoted path := by
  intro opens
  have faulted : ∀ (volume : Volume) (device : SectorDevice Unit) (fuel : Nat)
      (handle : OFileDirectory) (dir : Directory), handle.dir = some dir →
      ∃ text, utf16 path.units = some text ∧
        volume.openPath device fuel handle text = .error .panicked := by
    intro volume device fuel handle dir isDir
    have outcome := opens volume device fuel none handle dir isDir
    rw [openFile, panicked] at outcome
    exact outcome
  obtain ⟨volume, device, fuel, handle, dir, isDir, _⟩ := Fat.exists_returning []
  obtain ⟨text, denoted, _⟩ := faulted volume device fuel handle dir isDir
  obtain ⟨volume, device, fuel, handle, dir, isDir, result, returned⟩ := Fat.exists_returning text
  obtain ⟨text', denoted', opened⟩ := faulted volume device fuel handle dir isDir
  rw [denoted, Option.some.injEq] at denoted'
  rw [← denoted', returned] at opened
  cases opened

/-- A path is opened as the string that it denotes, on every volume and from every
directory, if and only if what is left of it leads where the string leads. -/
theorem opensDenoted_iff_keepsRoute (path : Char16Path) :
    OpensDenoted path ↔ path.KeepsRoute := by
  rcases decodePath_cases path with ⟨left, leaves, decoded⟩ | ⟨nothing, panicked⟩
  · exact opensDenoted_of_leaves leaves decoded
  · apply iff_of_false (not_opensDenoted_of_panicked panicked)
    rintro ⟨left, _, leaves, _⟩
    exact nothing left leaves

theorem utf16_eq_nil {units : List UInt16} (denoted : utf16 units = some []) : units = [] := by
  cases units with
  | nil => rfl
  | cons unit rest =>
    rw [utf16.eq_def] at denoted
    simp only at denoted
    split_ifs at denoted
    · split at denoted
      · cases denoted
      · split_ifs at denoted
        simp at denoted
    · simp at denoted

theorem Char16Path.not_keepsRoute_of_overflows {path : Char16Path}
    (overflows : Overflows path.seenUnits 256) : ¬path.KeepsRoute := by
  rintro ⟨left, text, leaves, denoted, same⟩
  cases leaves with
  | nothing _ =>
    rw [Fat.route_eq_nil same.symm] at denoted
    obtain ⟨before, ch, after, split, _⟩ := overflows
    rw [Char16Path.seenUnits, utf16_eq_nil denoted] at split
    simp [EfiStr.OsStr.beforeLowNul] at split
  | text fits _ => exact fits overflows

theorem letters_nonzero : ∀ unit ∈ List.replicate 257 (65 : UInt16), unit ≠ 0 := by
  intro unit member
  rw [List.eq_of_mem_replicate member]
  decide

def longPath : Char16Path := ⟨List.replicate 257 65, letters_nonzero⟩

def accentPath : Char16Path where
  units := [65, 0xe9]
  nonzero := by simp

def halfPath : Char16Path where
  units := [0xd83d]
  nonzero := by simp

theorem decodePath_longPath : decodePath longPath = .ok [] := by
  have overflows : Overflows longPath.seenUnits 256 :=
    ⟨List.replicate 256 65, 65, [], by decide +kernel, by decide +kernel⟩
  rcases decodePath_cases longPath with ⟨left, leaves, decoded⟩ | ⟨nothing, _⟩
  · cases leaves with
    | nothing _ => exact decoded
    | text fits _ => exact absurd overflows fits
  · exact absurd (.nothing overflows) (nothing [])

theorem utf16_longPath : utf16 longPath.units = some (List.replicate 257 'A') := by
  decide +kernel

theorem openPath_longPath :
    Fat.DirectoryImage.volume.openPath (.reliable (Fat.DirectoryImage.content [])) 400
      Fat.DirectoryImage.volume.rootPlace.handle (List.replicate 257 'A') =
        .ok (.error .notFound) := by
  have noParts : ∀ record ∈ ([] : List Fat.Record), record.InSequence := by simp
  have noFiles : ∀ entry ∈ Fat.flatScan Fat.emptyName [], entry.fileType = .file := by
    simp [Fat.flatScan]
  let tree := Fat.DirectoryImage.tree [] (by decide) noParts noFiles 400 (by decide)
  have length : (List.replicate 257 'A').length = 257 := List.length_replicate
  have nonempty : List.replicate 257 'A' ≠ [] := List.ne_nil_of_length_eq_add_one length
  have plain (other : Char) (different : other ≠ 'A') : other ∉ List.replicate 257 'A' :=
    fun member => different (List.eq_of_mem_replicate member)
  have single := Fat.pieces_plain nonempty (plain '/' (by decide)) (plain '\\' (by decide))
  have relative : Fat.findSeparator (List.replicate 257 'A') ≠ some 0 := by
    rw [Fat.findSeparator, Fat.findIdx?_absent (plain '/' (by decide)),
      Fat.findIdx?_absent (plain '\\' (by decide))]
    simp
  rw [tree.openPath_relative ⟨⟨_, rfl, rfl⟩, Or.inl rfl⟩
    (fun same => by simp [same] at length) (fun same => by simp [same] at length) relative
    (by rw [single]; decide), single]
  simp only [Fat.walk, if_neg nonempty]
  rfl

/-- The path of 257 letters opens the directory itself, where there is no file. The path
`Aé` is looked up as `A`, and half of a surrogate pair is a panic. -/
theorem openFile_lossy :
    (openFile Fat.DirectoryImage.volume (.reliable (Fat.DirectoryImage.content [])) 400 (some 16)
        Fat.DirectoryImage.volume.rootPlace.handle longPath =
          .ok (.ok ⟨16, Fat.DirectoryImage.volume.rootPlace.handle⟩) ∧
      utf16 longPath.units = some (List.replicate 257 'A') ∧
      Fat.DirectoryImage.volume.openPath (.reliable (Fat.DirectoryImage.content [])) 400
        Fat.DirectoryImage.volume.rootPlace.handle (List.replicate 257 'A') =
          .ok (.error .notFound)) ∧
    decodePath accentPath = .ok ['A'] ∧
    ∀ volume device fuel memory handle,
      openFile volume device fuel memory handle halfPath = .error .panicked := by
  refine ⟨⟨?_, utf16_longPath, openPath_longPath⟩, by decide +kernel, ?_⟩
  · exact openFile_opened decodePath_longPath rfl 16
  · intro volume device fuel memory handle
    have panicked : decodePath halfPath = .error .panicked := by decide +kernel
    rw [openFile, panicked]
    rfl

end HypervisorFirmware.Efi
