import HypervisorFirmware.Fat.DirectoryImage
import HypervisorFirmware.Fat.LookupTermination
import HypervisorFirmware.Fat.ParentDirectory

/-! # Slashes and backslashes

`open` looks for the first slash of a path, and for backslashes only if there is none:
backslashes before a slash stay in the name. -/

namespace HypervisorFirmware.Fat

def IsSeparator (character : Char) : Prop := character = '/' ∨ character = '\\'

instance (character : Char) : Decidable (IsSeparator character) :=
  inferInstanceAs (Decidable (_ ∨ _))

def asBackslash (character : Char) : Char := if character = '/' then '\\' else character

def withBackslashes (path : List Char) : List Char := path.map asBackslash

/-- On FAT32 volumes, paths that differ from this one in the kinds of their separators
only are opened with the same result. -/
def Interchangeable (path : List Char) : Prop :=
  ∀ (volume : Volume) device fuel (handle : OFileDirectory) dir other,
    volume.fatType = .fat32 → handle.dir = some dir →
    withBackslashes other = withBackslashes path →
    volume.openPath device fuel handle other = volume.openPath device fuel handle path

def Nameable (name : List Char) : Prop :=
  ∃ (record : Record) (longEntry : LongName), record.IsEntry ∧
    compareName name (record.entry longEntry) = .ok true

/-! ## Paths that differ in separators only -/

variable {character separator : Char} {path before : List Char}

theorem asBackslash_separator (isSeparator : IsSeparator character) :
    asBackslash character = '\\' := by
  rcases isSeparator with rfl | rfl
  · rfl
  · rfl

theorem asBackslash_other (other : ¬IsSeparator character) :
    asBackslash character = character :=
  if_neg fun slash => other (Or.inl slash)

theorem isSeparator_of_asBackslash (same : asBackslash character = '\\') :
    IsSeparator character := by
  rw [asBackslash] at same
  split_ifs at same with slash
  · exact Or.inl slash
  · exact Or.inr same

theorem withBackslashes_append (path other : List Char) :
    withBackslashes (path ++ other) = withBackslashes path ++ withBackslashes other :=
  List.map_append

theorem no_slash_withBackslashes (path : List Char) : '/' ∉ withBackslashes path := by
  intro member
  rcases List.mem_map.mp member with ⟨character, _, same⟩
  rw [asBackslash] at same
  split_ifs at same with slash
  · exact absurd same (by decide)
  · exact slash same

theorem withBackslashes_of_no_slash (plain : '/' ∉ path) : withBackslashes path = path := by
  induction path with
  | nil => rfl
  | cons character rest induction =>
    rw [List.mem_cons, not_or] at plain
    rw [withBackslashes, List.map_cons, asBackslash, if_neg (Ne.symm plain.1)]
    exact congrArg (character :: ·) (induction plain.2)

theorem eq_of_no_separators {other : List Char} (none : ∀ character ∈ path, ¬IsSeparator character)
    (same : withBackslashes other = withBackslashes path) : other = path := by
  induction path generalizing other with
  | nil => exact List.map_eq_nil_iff.mp same
  | cons character rest induction =>
    rcases List.forall_mem_cons.mp none with ⟨here, later⟩
    rcases List.map_eq_cons_iff.mp same with ⟨first, others, rfl, sameFirst, sameOthers⟩
    rw [asBackslash_other here] at sameFirst
    have notSeparator : ¬IsSeparator first := by
      intro isSeparator
      rw [asBackslash_separator isSeparator] at sameFirst
      exact here (Or.inr sameFirst.symm)
    rw [asBackslash_other notSeparator] at sameFirst
    rw [sameFirst, induction later sameOthers]

theorem exists_cut {after : List Char} (isSeparator : IsSeparator separator)
    (same : withBackslashes (before ++ separator :: after) = withBackslashes path) :
    ∃ before' separator' after', path = before' ++ separator' :: after' ∧
      IsSeparator separator' ∧ withBackslashes before' = withBackslashes before ∧
      withBackslashes after' = withBackslashes after := by
  rw [withBackslashes_append] at same
  rcases List.map_eq_append_iff.mp same.symm with ⟨before', rest, rfl, sameBefore, sameRest⟩
  rcases List.map_eq_cons_iff.mp sameRest with ⟨separator', after', rfl, sameSeparator, sameAfter⟩
  rw [asBackslash_separator isSeparator] at sameSeparator
  exact ⟨before', separator', after', rfl, isSeparator_of_asBackslash sameSeparator, sameBefore,
    sameAfter⟩

/-! ## Where a path is split -/

theorem findSeparator_cases (path : List Char) : (∀ character ∈ path, ¬IsSeparator character) ∨
      ∃ before separator after, path = before ++ separator :: after ∧ IsSeparator separator ∧
        '/' ∉ before ∧ findSeparator path = some before.length := by
  by_cases slash : '/' ∈ path
  · rcases List.eq_append_cons_of_mem slash with ⟨before, after, rfl, plain⟩
    exact Or.inr ⟨before, '/', after, rfl, Or.inl rfl, plain, findSeparator_slash plain after⟩
  · by_cases backslash : '\\' ∈ path
    · rcases List.eq_append_cons_of_mem backslash with ⟨before, after, rfl, plain⟩
      have noSlash : '/' ∉ before := fun member => slash (List.mem_append_left _ member)
      refine Or.inr ⟨before, '\\', after, rfl, Or.inr rfl, noSlash, ?_⟩
      rw [findSeparator, findIdx?_absent slash, List.findIdx?_append, findIdx?_absent plain]
      simp [List.findIdx?_cons]
    · refine Or.inl fun character member isSeparator => ?_
      rcases isSeparator with rfl | rfl
      · exact slash member
      · exact backslash member

theorem splitPath_cut {after : List Char}
    (found : findSeparator (before ++ separator :: after) = some before.length) :
    splitPath (before ++ separator :: after) = (before, after) := by
  rw [splitPath, found]
  simp

/-! ## Opening from a handle -/

def Volume.openFrom (volume : Volume) (device : SectorDevice Unit) (fuel : Nat)
    (pfile : OFileDirectory) (path : List Char) : Exec (Except Error OFileDirectory) :=
  match pfile.dir with
  | none => .ok (.error .unsupported)
  | some dir => Loop.run (volume.openBody device fuel) fuel ⟨path, dir.reset, pfile.dirEnt, none⟩

section

variable {volume : Volume} {device : SectorDevice Unit} {fuel : Nat}

variable {separator separator' : Char} {path name before before' : List Char}

theorem not_dots (before after : List Char) (isSeparator : IsSeparator separator) :
    before ++ separator :: after ≠ ['.'] ∧ before ++ separator :: after ≠ ['.', '.'] := by
  have member : separator ∈ before ++ separator :: after := by simp
  have notDot : separator ≠ '.' := by
    rcases isSeparator with rfl | rfl
    · decide
    · decide
  constructor
  · intro same
    rw [same] at member
    simp [notDot] at member
  · intro same
    rw [same] at member
    simp [notDot] at member

theorem openPath_eq (notSelf : path ≠ ['.']) (notParent : path ≠ ['.', '.'])
    (handle : OFileDirectory) :
    volume.openPath device fuel handle path = volume.unwrapRoot >>= fun root =>
      if findSeparator path ≠ some 0 then volume.openFrom device fuel handle path
      else volume.openFrom device fuel root (path.drop 1) := by
  rw [Volume.openPath, if_neg notSelf, if_neg notParent]
  cases volume.unwrapRoot with
  | error fault => rfl
  | ok root =>
    split_ifs
    · rfl
    · rfl

theorem openFrom_congr {handle : OFileDirectory} {other : List Char}
    (same : ∀ dir, volume.openBody device fuel ⟨other, dir, handle.dirEnt, none⟩ =
      volume.openBody device fuel ⟨path, dir, handle.dirEnt, none⟩) :
    volume.openFrom device fuel handle other = volume.openFrom device fuel handle path := by
  rw [Volume.openFrom, Volume.openFrom]
  cases handle.dir with
  | none => rfl
  | some dir =>
    cases fuel with
    | zero => rfl
    | succ fuel => simp only [Loop.run, same]

/-! ## Names that no entry has -/

theorem compareName_unnameable (unnameable : ¬Nameable name) {record : Record}
    (isEntry : record.IsEntry) (longEntry : LongName) :
    (Terminated longEntry ∧ compareName name (record.entry longEntry) = .ok false) ∨
      (¬Terminated longEntry ∧ compareName name (record.entry longEntry) = .error .undefined) := by
  rcases compareName_cases name (record.entry longEntry) with ⟨equal, compared, terminated⟩ | fault
  · cases equal with
    | true => exact absurd ⟨record, longEntry, isEntry, compared⟩ unnameable
    | false => exact Or.inl ⟨terminated, compared⟩
  · refine Or.inr ⟨fun terminated => ?_, fault⟩
    have returns : Terminated (record.entry longEntry).longName := terminated
    rcases (compareName_returns_iff name _).mpr returns with ⟨equal, compared⟩
    rw [fault] at compared
    cases compared

theorem exists_record_of_nextEntry {fs : Filesystem} {dir next : Directory}
    {entry : DirectoryEntry} (returned : dir.nextEntry fs device fuel = .ok (.ok entry, next)) :
    ∃ (record : Record) (longEntry : LongName), record.IsEntry ∧
      entry = record.entry longEntry := by
  rcases Loop.visits_of_run returned with ⟨⟨reached, name⟩, _, last⟩
  rcases Directory.nextEntryBody_entry last with ⟨skipped, record, _, _, isEntry, same⟩
  exact ⟨record, _, isEntry, same⟩

theorem findEntryBody_unnameable {other : List Char} (unnameable : ¬Nameable name)
    (unnameable' : ¬Nameable other) (fs : Filesystem) :
    findEntryBody fs device fuel name = findEntryBody fs device fuel other := by
  funext dir
  rw [findEntryBody, findEntryBody]
  cases called : dir.nextEntry fs device fuel with
  | error fault => rfl
  | ok result =>
    rcases result with ⟨error | entry, next⟩
    · rfl
    · rcases exists_record_of_nextEntry called with ⟨record, longEntry, isEntry, rfl⟩
      have same : compareName name (record.entry longEntry) =
          compareName other (record.entry longEntry) := by
        rcases compareName_unnameable unnameable isEntry longEntry with
          ⟨terminated, compared⟩ | ⟨endless, compared⟩
        · rcases compareName_unnameable unnameable' isEntry longEntry with
            ⟨_, compared'⟩ | ⟨endless, _⟩
          · rw [compared, compared']
          · exact absurd terminated endless
        · rcases compareName_unnameable unnameable' isEntry longEntry with
            ⟨terminated, _⟩ | ⟨_, compared'⟩
          · exact absurd terminated endless
          · rw [compared, compared']
      simp only [Exec.ok_bind, same]

theorem findEntry_unnameable (unnameable : ¬Nameable name) {fs : Filesystem}
    {dir : Directory} {found : Except Error DirectoryEntry}
    (returned : findEntry fs device fuel name dir = .ok found) :
    ∃ error, found = .error error := by
  rcases Loop.visits_of_run returned with ⟨reached, _, last⟩
  rw [findEntryBody] at last
  cases called : reached.nextEntry fs device fuel with
  | error fault => simp [called] at last
  | ok result =>
    rcases result with ⟨error | entry, next⟩
    · simp only [called, Exec.ok_bind, Exec.pure_eq_ok, Except.ok.injEq, Sum.inr.injEq] at last
      exact ⟨error, last.symm⟩
    · rcases exists_record_of_nextEntry called with ⟨record, longEntry, isEntry, rfl⟩
      rcases compareName_unnameable unnameable isEntry longEntry with
        ⟨_, compared⟩ | ⟨_, compared⟩
      · simp [called, compared] at last
      · simp [called, compared] at last

theorem openBody_unnameable {other rest rest' : List Char} (unnameable : ¬Nameable name)
    (unnameable' : ¬Nameable other) {path' : List Char} (cut : splitPath path = (name, rest))
    (cut' : splitPath path' = (other, rest')) (nonempty : path.length ≠ 0)
    (nonempty' : path'.length ≠ 0) (named : name.length ≠ 0) (named' : other.length ≠ 0)
    (dir : Directory) (entry : DirectoryEntry) :
    volume.openBody device fuel ⟨path, dir, entry, none⟩ =
      volume.openBody device fuel ⟨path', dir, entry, none⟩ := by
  have same : findEntry volume.toFilesystem device fuel name dir =
      findEntry volume.toFilesystem device fuel other dir := by
    rw [findEntry, findEntryBody_unnameable unnameable unnameable', findEntry]
  rw [openBody_eq, openBody_eq]
  simp only [cut, cut', if_neg nonempty, if_neg nonempty', if_neg named, if_neg named', ← same]
  cases found : findEntry volume.toFilesystem device fuel name dir with
  | error fault => rfl
  | ok result =>
    rcases findEntry_unnameable unnameable found with ⟨error, rfl⟩
    cases error <;> rfl

/-! ## Paths whose separators are interchangeable -/

theorem nameable_nil : Nameable [] := by
  refine ⟨Vector.replicate 32 65, emptyName, ⟨?_, ?_, ?_⟩, ?_⟩
  · decide
  · decide
  · decide
  · decide +kernel

theorem same_cut {after after' : List Char}
    (isSeparator : IsSeparator separator) (isSeparator' : IsSeparator separator')
    (single : (before ++ separator :: after).countP (IsSeparator ·) ≤ 1)
    (same : withBackslashes (before' ++ separator' :: after') =
      withBackslashes (before ++ separator :: after)) :
    before' = before ∧ after' = after := by
  rw [List.countP_append, List.countP_cons_of_pos (by simpa using isSeparator)] at single
  have plain : ∀ character ∈ before, ¬IsSeparator character := by
    have zero : before.countP (IsSeparator ·) = 0 := by omega
    simpa using List.countP_eq_zero.mp zero
  have plain' : ∀ character ∈ after, ¬IsSeparator character := by
    have zero : after.countP (IsSeparator ·) = 0 := by omega
    simpa using List.countP_eq_zero.mp zero
  have absent {part : List Char} (plain : ∀ character ∈ part, ¬IsSeparator character) :
      '\\' ∉ withBackslashes part := by
    intro member
    rcases List.mem_map.mp member with ⟨character, inside, same⟩
    exact plain character inside (isSeparator_of_asBackslash same)
  rw [withBackslashes_append, withBackslashes_append] at same
  simp only [withBackslashes, List.map_cons, asBackslash_separator isSeparator,
    asBackslash_separator isSeparator'] at same
  rcases (List.append_cons_inj_of_notMem (absent plain) (absent plain')).mp same.symm with
    ⟨sameBefore, _, sameAfter⟩
  exact ⟨eq_of_no_separators plain sameBefore.symm, eq_of_no_separators plain' sameAfter.symm⟩

theorem openPath_cut {after : List Char} (isSeparator : IsSeparator separator)
    (found : findSeparator (before ++ separator :: after) = some before.length)
    (handle : OFileDirectory) :
    volume.openPath device fuel handle (before ++ separator :: after) =
      volume.unwrapRoot >>= fun root =>
        if before = [] then volume.openFrom device fuel root after
        else volume.openFrom device fuel handle (before ++ separator :: after) := by
  rcases not_dots before after isSeparator with ⟨notSelf, notParent⟩
  rw [openPath_eq notSelf notParent, found]
  by_cases empty : before = []
  · subst empty
    rfl
  · simp [empty]

theorem openPath_congr {after after' : List Char}
    (isSeparator : IsSeparator separator) (isSeparator' : IsSeparator separator')
    (found : findSeparator (before ++ separator :: after) = some before.length)
    (found' : findSeparator (before' ++ separator' :: after') = some before'.length)
    (agree : (before' = before ∧ after' = after) ∨ (¬Nameable before ∧ ¬Nameable before'))
    (handle : OFileDirectory) :
    volume.openPath device fuel handle (before' ++ separator' :: after') =
      volume.openPath device fuel handle (before ++ separator :: after) := by
  have cut := splitPath_cut found
  have cut' := splitPath_cut found'
  rw [openPath_cut isSeparator found, openPath_cut isSeparator' found']
  congr
  funext root
  rcases agree with ⟨rfl, rfl⟩ | ⟨unnameable, unnameable'⟩
  · split_ifs
    · rfl
    · apply openFrom_congr
      intro dir
      rw [openBody_eq, openBody_eq]
      simp only [cut, cut', List.length_append, List.length_cons]
      rfl
  · have named : before ≠ [] := by
      rintro rfl
      exact unnameable nameable_nil
    have named' : before' ≠ [] := by
      rintro rfl
      exact unnameable' nameable_nil
    rw [if_neg named, if_neg named']
    apply openFrom_congr
    intro dir
    apply openBody_unnameable unnameable' unnameable cut' cut
    · simp
    · simp
    · exact mt List.length_eq_zero_iff.mp named'
    · exact mt List.length_eq_zero_iff.mp named

theorem interchangeable_of_cuts (agree : ∀ before separator after before' separator' after',
      path = before ++ separator :: after → IsSeparator separator → IsSeparator separator' →
      withBackslashes (before' ++ separator' :: after') = withBackslashes path →
      '/' ∉ before → '/' ∉ before' →
      (before' = before ∧ after' = after) ∨ (¬Nameable before ∧ ¬Nameable before')) :
    Interchangeable path := by
  intro volume device fuel handle dir other _ _ same
  rcases findSeparator_cases path with
    none | ⟨before, separator, after, cut, isSeparator, plain, found⟩
  · rw [eq_of_no_separators none same]
  · rcases findSeparator_cases other with
      none | ⟨before', separator', after', rfl, isSeparator', plain', found'⟩
    · rw [eq_of_no_separators none same.symm]
    · have agrees := agree _ _ _ _ _ _ cut isSeparator isSeparator' same plain plain'
      subst cut
      exact openPath_congr isSeparator isSeparator' found found' agrees handle

theorem interchangeable_of_single
    (single : path.countP (IsSeparator ·) ≤ 1) : Interchangeable path := by
  apply interchangeable_of_cuts
  rintro before separator after before' separator' after' rfl isSeparator isSeparator' same _ _
  exact Or.inl (same_cut isSeparator isSeparator' single same)

theorem interchangeable_of_unnameable
    (unnameable : ∀ before separator after, path = before ++ separator :: after →
      IsSeparator separator → ¬Nameable (withBackslashes before)) : Interchangeable path := by
  apply interchangeable_of_cuts
  intro before separator after before' separator' after' cut isSeparator isSeparator' same
    plain plain'
  have first := unnameable before separator after cut isSeparator
  rw [withBackslashes_of_no_slash plain] at first
  rcases exists_cut isSeparator' same with ⟨place, mark, rest, cut', isMark, samePlace, _⟩
  have second := unnameable place mark rest cut' isMark
  rw [samePlace, withBackslashes_of_no_slash plain'] at second
  exact Or.inr ⟨first, second⟩

end

/-! ## Paths whose separators are not interchangeable -/

theorem withBackslashes_cut (before after : List Char) (isSeparator : IsSeparator separator) :
    withBackslashes (withBackslashes before ++ '/' :: after) =
      withBackslashes (before ++ separator :: after) := by
  have again := withBackslashes_of_no_slash (no_slash_withBackslashes before)
  rw [withBackslashes_append, again, withBackslashes_append]
  simp only [withBackslashes, List.map_cons, asBackslash_separator isSeparator,
    asBackslash_separator (Or.inl rfl : IsSeparator '/')]

theorem exists_other_cut {after : List Char}
    (several : 1 < (before ++ separator :: after).countP (IsSeparator ·)) :
    ∃ before' separator' after', before ++ separator :: after = before' ++ separator' :: after' ∧
      IsSeparator separator' ∧ before'.length ≠ before.length := by
  have cut {part : List Char} (some : 0 < part.countP (IsSeparator ·)) :
      ∃ front separator back, part = front ++ separator :: back ∧ IsSeparator separator := by
    rcases List.countP_pos_iff.mp some with ⟨character, member, isSeparator⟩
    rcases List.append_of_mem member with ⟨front, back, same⟩
    exact ⟨front, character, back, same, of_decide_eq_true isSeparator⟩
  have atMost := List.countP_cons (p := (IsSeparator ·)) (a := separator) (l := after)
  rw [List.countP_append] at several
  by_cases early : 0 < before.countP (IsSeparator ·)
  · rcases cut early with ⟨front, mark, back, rfl, isMark⟩
    refine ⟨front, mark, back ++ separator :: after, by simp, isMark, ?_⟩
    simp
  · have late : 0 < after.countP (IsSeparator ·) := by
      split_ifs at atMost <;> omega
    rcases cut late with ⟨front, mark, back, rfl, isMark⟩
    refine ⟨before ++ separator :: front, mark, back, by simp, isMark, ?_⟩
    simp

def Record.emptied (record : Record) : Record :=
  Vector.ofFn fun index => if index.val < 11 then record.get index else 0

theorem Record.flags_emptied (record : Record) : record.emptied.flags = 0 :=
  Vector.getElem_ofFn (show 11 < 32 by decide)

theorem Record.first_emptied (record : Record) : record.emptied.first = record.first :=
  Vector.getElem_ofFn (show 0 < 32 by decide)

theorem Record.name_emptied (record : Record) :
    record.emptied.toList.take efiFatShortNameLen = record.toList.take efiFatShortNameLen := by
  apply List.ext_getElem
  · simp
  · intro index inside inside'
    have small : index < 11 := by
      rw [List.length_take] at inside
      exact Nat.lt_of_lt_of_le inside (Nat.min_le_left _ _)
    simp only [List.getElem_take, Vector.getElem_toList, Record.emptied, Vector.getElem_ofFn,
      if_pos small]
    rfl

theorem Record.IsEntry.emptied {record : Record} (isEntry : record.IsEntry) :
    record.emptied.IsEntry := by
  rw [IsEntry, first_emptied, flags_emptied]
  exact ⟨isEntry.1, isEntry.2.1, by decide⟩

theorem Record.fileType_emptied (record : Record) (longEntry : LongName) :
    (record.emptied.entry longEntry).fileType = .file := by
  rw [entry, flags_emptied]
  rfl

theorem compareShortName_other (name : List Char) {other : List Char} {entry : DirectoryEntry}
    (compared : compareShortName name entry = true) (different : name ≠ other) :
    compareShortName other entry = false := by
  rw [compareShortName, beq_iff_eq] at compared
  rw [compareShortName, beq_eq_false_iff_ne, compared]
  exact fun same => different (EfiStr.utf8_injective same)

theorem units_other {name other : List Char} {units : List UInt16}
    (same : units.map UInt16.toNat = name.map Char.toNat) (different : name ≠ other) :
    (units.map UInt16.toNat == other.map Char.toNat) = false := by
  rw [beq_eq_false_iff_ne, same]
  exact fun equal => different (List.map_injective_iff.mpr (fun _ _ => Char.toNat_inj.mp) equal)

def letterRecord (letter : UInt8) : Record :=
  Vector.ofFn fun index => if index.val = 0 then letter else if index.val < 11 then 32 else 0

theorem exists_letter (other : List Char) (longEntry : LongName) :
    ∃ letter : UInt8, (letterRecord letter).IsEntry ∧
      ((letterRecord letter).entry longEntry).fileType = .file ∧
      compareShortName other ((letterRecord letter).entry longEntry) = false := by
  have nameA : compareShortName ['A'] ((letterRecord 65).entry emptyName) = true := by
    decide +kernel
  have nameB : compareShortName ['B'] ((letterRecord 66).entry emptyName) = true := by
    decide +kernel
  by_cases isA : other = ['A']
  · refine ⟨66, by decide, rfl, compareShortName_other ['B'] nameB ?_⟩
    rw [isA]
    decide
  · exact ⟨65, by decide, rfl, compareShortName_other ['A'] nameA (Ne.symm isA)⟩

theorem exists_distinguishing {name other : List Char} (nameable : Nameable name)
    (different : name ≠ other) (nonempty : other ≠ []) :
    ∃ (record : Record) (longEntry : LongName), record.IsEntry ∧
      (record.entry longEntry).fileType = .file ∧
      compareName name (record.entry longEntry) = .ok true ∧
      compareName other (record.entry longEntry) = .ok false := by
  rcases nameable with ⟨record, longEntry, isEntry, compared⟩
  have terminated : Terminated longEntry := (compareName_returns_iff name _).mp ⟨true, compared⟩
  have slice (record : Record) :
      EfiStr.OsStr.fromU16SliceWithNul (record.entry longEntry).longName.toList =
        .ok (EfiStr.OsStr.beforeLowNul longEntry.toList) :=
    EfiStr.OsStr.fromU16SliceWithNul_eq terminated
  rw [compareName_of_slice (slice record), Except.ok.injEq, Bool.or_eq_true, beq_iff_eq] at compared
  rcases compared with short | long
  · -- The file has the short name, and no long name.
    have empty : EfiStr.OsStr.fromU16SliceWithNul emptyName.toList = .ok [] := by decide +kernel
    have noLongName : EfiStr.OsStr.fromU16SliceWithNul
        (record.emptied.entry emptyName).longName.toList = .ok [] := empty
    have short' : compareShortName name (record.emptied.entry emptyName) = true := by
      rw [compareShortName, Record.entry, record.name_emptied]
      exact short
    refine ⟨record.emptied, emptyName, isEntry.emptied, record.fileType_emptied _, ?_, ?_⟩
    · rw [compareName_of_slice noLongName, short', Bool.true_or]
    · rw [compareName_of_slice noLongName, compareShortName_other name short' different,
        Bool.false_or]
      simp [nonempty]
  · rcases exists_letter other longEntry with ⟨letter, isEntry', file, shortOther⟩
    refine ⟨letterRecord letter, longEntry, isEntry', file, ?_, ?_⟩
    · rw [compareName_of_slice (slice _), long, beq_self_eq_true, Bool.or_true]
    · rw [compareName_of_slice (slice _), shortOther, units_other long different, Bool.false_or]

section

open DirectoryImage

variable {name rest : List Char}

theorem relative_cut (rest : List Char) (plain : '/' ∉ name) (nonempty : name ≠ []) :
    name ++ '/' :: rest ≠ ['.'] ∧ name ++ '/' :: rest ≠ ['.', '.'] ∧
      findSeparator (name ++ '/' :: rest) ≠ some 0 := by
  rcases not_dots name rest (Or.inl rfl) with ⟨notSelf, notParent⟩
  refine ⟨notSelf, notParent, ?_⟩
  rw [findSeparator_slash plain, Ne, Option.some.injEq]
  exact mt List.length_eq_zero_iff.mp nonempty

theorem openPath_image {records : List Record} {fuel : Nat}
    (tree : Tree volume (.reliable (content records)) fuel) (place : Place)
    (isDirectory : tree.IsDirectory place.cluster)
    (plain : '/' ∉ name) (nonempty : name ≠ []) (enough : (name ++ '/' :: rest).length < fuel) :
    volume.openPath (.reliable (content records)) fuel place.handle (name ++ '/' :: rest) =
      walk volume tree.listing ⟨place.cluster, place.entry, none⟩ (name :: pieces rest) := by
  rcases relative_cut rest plain nonempty with ⟨notSelf, notParent, relative⟩
  rw [tree.openPath_relative ⟨⟨_, rfl, rfl⟩, isDirectory⟩ notSelf notParent relative
    (Nat.lt_of_le_of_lt (length_pieces_le _) enough), pieces_slash plain]
  rfl

section File

variable {record : Record} (isEntry : record.IsEntry) {longEntry : LongName}
  (file : (record.entry longEntry).fileType = .file) {fuel : Nat} (many : 32 < fuel)
  {name rest : List Char} (plain : '/' ∉ name) (nonempty : name ≠ [])
  (enough : (name ++ '/' :: rest).length < fuel)
include isEntry file many plain nonempty enough

theorem openPath_file (compared : compareName name (record.entry longEntry) = .ok true) :
    volume.openPath (.reliable (content (named record longEntry))) fuel volume.rootPlace.handle
        (name ++ '/' :: rest) =
      .ok (.ok (volume.object (record.entry longEntry))) := by
  have isRoot : (fileTree isEntry file fuel many).IsDirectory volume.rootPlace.cluster := Or.inl rfl
  rw [openPath_image (fileTree isEntry file fuel many) _ isRoot plain nonempty enough]
  apply Volume.walk_file nonempty
  · apply (search_fileTree isEntry file many name).trans
    rw [searchEntries, compared]
  · exact file

theorem openPath_notFile (compared : compareName name (record.entry longEntry) = .ok false) :
    ∃ error, volume.openPath (.reliable (content (named record longEntry))) fuel
        volume.rootPlace.handle (name ++ '/' :: rest) = .ok (.error error) := by
  have isRoot : (fileTree isEntry file fuel many).IsDirectory volume.rootPlace.cluster := Or.inl rfl
  rw [openPath_image (fileTree isEntry file fuel many) _ isRoot plain nonempty enough]
  apply Volume.walk_error nonempty
  · apply (search_fileTree isEntry file many name).trans
    rw [searchEntries, compared]
    rfl

end File

theorem not_interchangeable_of_nameable {path other rest' : List Char}
    (form : withBackslashes (name ++ '/' :: rest) = withBackslashes path)
    (form' : withBackslashes (other ++ '/' :: rest') = withBackslashes path)
    (plain : '/' ∉ name) (plain' : '/' ∉ other) (nonempty : name ≠ []) (nonempty' : other ≠ [])
    (different : name ≠ other) (nameable : Nameable name) : ¬Interchangeable path := by
  intro interchangeable
  rcases exists_distinguishing nameable different nonempty' with
    ⟨record, longEntry, isEntry, file, compared, compared'⟩
  obtain ⟨fuel, many, enough, enough'⟩ : ∃ fuel, 32 < fuel ∧
      (name ++ '/' :: rest).length < fuel ∧ (other ++ '/' :: rest').length < fuel :=
    ⟨(name ++ '/' :: rest).length + (other ++ '/' :: rest').length + 33, by omega, by omega,
      by omega⟩
  have opened := openPath_file isEntry file many plain nonempty enough compared
  rcases openPath_notFile isEntry file many plain' nonempty' enough' compared' with
    ⟨error, failed⟩
  rw [interchangeable _ _ _ _ _ _ rfl rfl form] at opened
  rw [interchangeable _ _ _ _ _ _ rfl rfl form', opened] at failed
  cases failed

def beyond : Place := ⟨100, volume.rootPlace.entry, none⟩

theorem openPath_noFiles {fuel : Nat} (many : 32 < fuel)
    (plain : '/' ∉ name) (nonempty : name ≠ []) (enough : (name ++ '/' :: rest).length < fuel) :
    volume.openPath (.reliable (content [])) fuel volume.rootPlace.handle (name ++ '/' :: rest) =
        .ok (.error .notFound) ∧
      volume.openPath (.reliable (content [])) fuel beyond.handle (name ++ '/' :: rest) =
        .ok (.error .blockError) := by
  have noParts : ∀ record ∈ ([] : List Record), record.InSequence := by simp
  have noFiles : ∀ entry ∈ flatScan emptyName [], entry.fileType = .file := by simp [flatScan]
  let tree := tree [] (by decide) noParts noFiles fuel many
  have root : (tree.listing volume.rootPlace.cluster).search name = .ok (.error .endOfFile) := rfl
  have unreadable : (tree.listing beyond.cluster).search name = .ok (.error .blockError) := rfl
  constructor
  · rw [openPath_image tree volume.rootPlace (Or.inl rfl) plain nonempty enough]
    simp only [walk, if_neg nonempty, root]
  · rw [openPath_image tree beyond (Or.inr rfl) plain nonempty enough]
    simp only [walk, if_neg nonempty, unreadable]

theorem not_interchangeable_of_absolute {path rest' : List Char}
    (form : withBackslashes ('/' :: rest) = withBackslashes path)
    (form' : withBackslashes (name ++ '/' :: rest') = withBackslashes path)
    (plain : '/' ∉ name) (nonempty : name ≠ []) : ¬Interchangeable path := by
  intro interchangeable
  obtain ⟨fuel, many, enough⟩ : ∃ fuel, 32 < fuel ∧ (name ++ '/' :: rest').length < fuel :=
    ⟨(name ++ '/' :: rest').length + 33, by omega, by omega⟩
  have absolute : findSeparator ([] ++ '/' :: rest) = some ([] : List Char).length :=
    findSeparator_slash (by simp) rest
  have same : volume.openPath (.reliable (content [])) fuel volume.rootPlace.handle
      ('/' :: rest) = volume.openPath (.reliable (content [])) fuel beyond.handle ('/' :: rest) :=
    (openPath_cut (Or.inl rfl) absolute _).trans (openPath_cut (Or.inl rfl) absolute _).symm
  rcases openPath_noFiles many plain nonempty enough with ⟨atRoot, atBeyond⟩
  rw [interchangeable _ _ _ _ _ _ rfl rfl form] at same
  rw [interchangeable _ _ _ _ _ _ rfl rfl form'] at atRoot atBeyond
  rw [interchangeable _ _ _ _ _ _ rfl rfl form, atRoot, atBeyond] at same
  cases same

end

theorem interchangeable_iff (path : List Char) :
    Interchangeable path ↔
      path.countP (IsSeparator ·) ≤ 1 ∨
      ∀ before separator after, path = before ++ separator :: after → IsSeparator separator →
        ¬Nameable (withBackslashes before) := by
  constructor
  · intro interchangeable
    by_contra neither
    rw [not_or, Nat.not_le] at neither
    rcases neither with ⟨several, nameable⟩
    push Not at nameable
    rcases nameable with ⟨before, separator, after, rfl, isSeparator, nameable⟩
    rcases exists_other_cut several with
      ⟨before', separator', after', cut, isSeparator', different⟩
    have form := withBackslashes_cut before after isSeparator
    have form' := withBackslashes_cut before' after' isSeparator'
    rw [← cut] at form'
    have plain := no_slash_withBackslashes before
    have plain' := no_slash_withBackslashes before'
    have lengths : (withBackslashes before').length ≠ (withBackslashes before).length := by
      rwa [withBackslashes, withBackslashes, List.length_map, List.length_map]
    by_cases first : withBackslashes before = []
    · have second : withBackslashes before' ≠ [] := by
        intro empty
        rw [first, empty] at lengths
        exact lengths rfl
      rw [first] at form
      exact not_interchangeable_of_absolute form form' plain' second interchangeable
    · by_cases second : withBackslashes before' = []
      · rw [second] at form'
        exact not_interchangeable_of_absolute form' form plain first interchangeable
      · have names : withBackslashes before ≠ withBackslashes before' :=
          fun same => lengths (congrArg List.length same.symm)
        exact not_interchangeable_of_nameable form form' plain plain' first second names nameable
          interchangeable
  · intro condition
    rcases condition with single | unnameable
    · exact interchangeable_of_single single
    · exact interchangeable_of_unnameable unnameable

/-- The path `A/B/C` opens a directory, and the path `A\B/C` looks for an entry with the
name `A\B`. -/
theorem not_interchangeable_mixed : ¬Interchangeable ['A', '/', 'B', '/', 'C'] := by
  intro interchangeable
  have same := interchangeable Nested.volume Nested.device 10 Nested.volume.rootPlace.handle _
    ['A', '\\', 'B', '/', 'C'] rfl rfl rfl
  have opened : (Nested.volume.openPath Nested.device 10 Nested.volume.rootPlace.handle
      ['A', '/', 'B', '/', 'C']).map Except.isOk = .ok true := by decide +kernel
  have failed : (Nested.volume.openPath Nested.device 10 Nested.volume.rootPlace.handle
      ['A', '\\', 'B', '/', 'C']).map Except.isOk = .ok false := by decide +kernel
  rw [same, opened] at failed
  cases failed

end HypervisorFirmware.Fat
