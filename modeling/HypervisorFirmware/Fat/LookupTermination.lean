import HypervisorFirmware.Fat.FixedRoot
import HypervisorFirmware.Fat.ParsingFaults
import HypervisorFirmware.Fat.PathLookup
import HypervisorFirmware.Foundation.Budget

/-! # Lookups that end

`next_entry` and `open` follow the links of the volume without counting. They end
unless the sectors from some position on go around in a circle, or on and on, with
nothing in them at which a lookup stops. -/

namespace HypervisorFirmware.Fat

open Directory

/-! ## Positions from which a lookup never stops -/

/-- Records that a lookup goes over, if none of them has the name: nothing ends the
directory, parts of long names have their places, and long names are terminated. -/
def Clean : LongName → List Record → Prop
  | _, [] => True
  | longEntry, record :: rest =>
    record.Passable ∧ (record.IsEntry → Terminated longEntry) ∧
      Clean (record.collect longEntry) rest

/-- From here on there are free records and parts of long names without end. -/
def SkipsForever (fs : Filesystem) (device : SectorDevice Unit) (dir : Directory) : Prop :=
  ∀ records last, Reads fs device dir records last →
    (∀ record ∈ records, record.Skipped) ∧
      ∃ data here, last.readSector fs device = .ok (.ok data, here)

/-- From here on there are clean records without end. -/
def ListsForever (fs : Filesystem) (device : SectorDevice Unit) (dir : Directory) : Prop :=
  ∀ records last, Reads fs device dir records last →
    Clean emptyName records ∧ ∃ data here, last.readSector fs device = .ok (.ok data, here)

/-- On a device whose reads succeed, with these contents, every call of `next_entry` and
of `open` ends: with a result, an error or a fault. -/
structure LookupTerminates (volume : Volume) (content : UInt64 → Sector) : Prop where
  nextEntry : ∀ dir : Directory,
    Settles fun fuel => dir.nextEntry volume.toFilesystem (.reliable content) fuel
  openPath : ∀ handle path,
    Settles fun fuel => volume.openPath (.reliable content) fuel handle path

/-! ## Clean records -/

theorem clean_append (longEntry : LongName) (records others : List Record) :
    Clean longEntry (records ++ others) ↔
      Clean longEntry records ∧ Clean (nameBehind longEntry records) others := by
  induction records generalizing longEntry with
  | nil => simp [Clean, nameBehind]
  | cons record rest induction =>
    rw [List.cons_append, Clean, Clean, induction]
    simp only [and_assoc]
    rfl

theorem clean_skipped {skipped : List Record} (skips : ∀ record ∈ skipped, record.Skipped)
    (longEntry : LongName) : Clean longEntry skipped := by
  induction skipped generalizing longEntry with
  | nil => trivial
  | cons record rest induction =>
    rcases List.forall_mem_cons.mp skips with ⟨skip, skips⟩
    exact ⟨skip.passable, fun isEntry => absurd isEntry skip.2.1, induction skips _⟩

theorem Clean.passable {longEntry : LongName} {records : List Record}
    (clean : Clean longEntry records) : ∀ record ∈ records, record.Passable := by
  induction records generalizing longEntry with
  | nil => simp
  | cons record rest induction =>
    exact List.forall_mem_cons.mpr ⟨clean.1, induction clean.2.2⟩

/-! ## One call -/

section

variable {fs : Filesystem} {device : SectorDevice Unit}

theorem readSector_cases (dir : Directory) :
    (∃ data here, dir.readSector fs device = .ok (.ok data, here)) ∨
      ∃ outcome : Exec (Error × Directory), outcome ≠ .error .diverged ∧
        dir.readSector fs device = outcome.map fun failed => (.error failed.1, failed.2) := by
  cases found : dir.readSector fs device with
  | error fault =>
    refine Or.inr ⟨.error fault, ?_, rfl⟩
    have faulted := (readSector_faults_iff dir fault).mp found
    rw [getSector] at faulted
    split at faulted
    · cases faulted
    · split at faulted
      · split at faulted
        · rename_i lookup
          cases faulted
          have ends := (Filesystem.nextCluster_fault lookup).ends
          simpa using ends
        · cases faulted
        · cases faulted
      · cases faulted
  | ok outcome =>
    rcases outcome with ⟨error | data, here⟩
    · exact Or.inr ⟨.ok (error, here), by simp, rfl⟩
    · exact Or.inl ⟨data, here, rfl⟩

variable (positive : 0 < fs.sectorsPerCluster)

include positive

variable {dir : Directory}

theorem nextEntry_settles (ends : ¬SkipsForever fs device dir) :
    Settles fun fuel => dir.nextEntry fs device fuel := by
  rw [SkipsForever] at ends
  push Not at ends
  rcases ends with ⟨records, last, reads, ends⟩
  rcases skipped_or_stop records with skips | ⟨skipped, record, rest, rfl, skips, stops⟩
  · rcases readSector_cases last with ⟨data, here, found⟩ | ⟨outcome, within, found⟩
    · exact absurd found (ends skips data here)
    · refine ⟨_, ?_, reads.nextEntry_unreadable positive skips outcome found⟩
      cases outcome with
      | error fault => simpa [Except.map] using within
      | ok failed => simp [Except.map]
  · by_cases zero : record.first = 0
    · rcases reads.nextEntry_endOfFile positive skips zero with ⟨enough, stop, returns, _⟩
      exact ⟨_, by simp, enough, returns⟩
    · by_cases isEntry : record.IsEntry
      · rcases reads.nextEntry positive skips isEntry with ⟨enough, next, returns, _⟩
        exact ⟨_, by simp, enough, returns⟩
      · have invalid : ¬record.InSequence := fun valid => stops ⟨zero, isEntry, valid⟩
        exact ⟨_, by simp, reads.nextEntry_panics positive skips invalid⟩

/-! ## Looking for a name -/

omit positive in
theorem compareName_cases (name : List Char) (entry : DirectoryEntry) :
    (∃ equal, compareName name entry = .ok equal ∧ Terminated entry.longName) ∨
      compareName name entry = .error .undefined := by
  by_cases terminated : Terminated entry.longName
  · rcases (compareName_returns_iff name entry).mpr terminated with ⟨equal, compared⟩
    exact Or.inl ⟨equal, compared, terminated⟩
  · exact Or.inr (compareName_endless name terminated)

omit positive in
theorem findEntryBody_settles (name : List Char)
    {outcome : Exec (Except Error DirectoryEntry × Directory)}
    (settles : SettlesTo (fun fuel => dir.nextEntry fs device fuel) outcome) :
    SettlesTo (fun fuel => findEntryBody fs device fuel name dir) (do
      match ← outcome with
      | (.error error, _) => return .inr (.error error)
      | (.ok de, dir) =>
        if ← compareName name de then return .inr (.ok de)
        else return .inl dir) := by
  rcases settles with ⟨enough, same⟩
  refine ⟨enough, fun fuel many => ?_⟩
  have once : dir.nextEntry fs device fuel = outcome := same fuel many
  subst once
  rfl

section

variable (name : List Char) {last : Directory} {records : List Record}
  (reads : Reads fs device dir records last)
  (ends : Clean emptyName records → ∀ data here, last.readSector fs device ≠ .ok (.ok data, here))

include reads ends

/-- An iteration of a search ends, if not all of the records are clean or the sector behind
them cannot be read, and it goes on with fewer records for which the same is true. -/
theorem Directory.Reads.findEntryBody_settles :
    ∃ outcome, outcome ≠ .error .diverged ∧
      SettlesTo (fun fuel => findEntryBody fs device fuel name dir) outcome ∧
      ∀ next, outcome = .ok (.inl next) → ∃ rest, rest.length < records.length ∧
        Reads fs device next rest last ∧ (Clean emptyName rest →
          ∀ data here, last.readSector fs device ≠ .ok (.ok data, here)) := by
  rcases skipped_or_stop records with skips | ⟨skipped, record, rest, rfl, skips, stops⟩
  · rcases readSector_cases last with ⟨data, here, found⟩ | ⟨failure, within, found⟩
    · exact absurd found (ends (clean_skipped skips emptyName) data here)
    · have settles := Fat.findEntryBody_settles name
        (reads.nextEntry_unreadable positive skips failure found)
      refine ⟨_, ?_, settles, ?_⟩
      · cases failure with
        | error fault => simpa [Except.map] using within
        | ok failed => simp [Except.map]
      · cases failure with
        | error fault => simp [Except.map]
        | ok failed => simp [Except.map]
  · by_cases zero : record.first = 0
    · rcases reads.nextEntry_endOfFile positive skips zero with ⟨enough, stop, returns, _⟩
      exact ⟨_, by simp, Fat.findEntryBody_settles name ⟨enough, returns⟩, by simp⟩
    · by_cases isEntry : record.IsEntry
      · rcases reads.nextEntry positive skips isEntry with ⟨enough, next, returns, later⟩
        have settles := Fat.findEntryBody_settles name ⟨enough, returns⟩
        rcases compareName_cases name (record.entry (nameBehind emptyName skipped)) with
          ⟨equal, compared, terminated⟩ | faulted
        · refine ⟨_, ?_, settles, ?_⟩
          · cases equal <;> simp [compared]
          · intro following same
            cases equal with
            | true => simp [compared] at same
            | false =>
              obtain rfl : next = following := by simpa [compared] using same
              refine ⟨rest, by simp; omega, later, fun clean => ends ?_⟩
              rw [clean_append]
              refine ⟨clean_skipped skips _, isEntry.passable, fun _ => terminated, ?_⟩
              rwa [isEntry.collect]
        · exact ⟨_, by simp [faulted], settles, by simp [faulted]⟩
      · have invalid : ¬record.InSequence := fun valid => stops ⟨zero, isEntry, valid⟩
        exact ⟨_, by simp, Fat.findEntryBody_settles name
          (reads.nextEntry_panics positive skips invalid), by simp⟩

theorem Directory.Reads.findEntry_settles :
    Loop.Settles (fun fuel => findEntryBody fs device fuel name) dir := by
  induction length : records.length using Nat.strong_induction_on generalizing dir records with
  | _ size induction =>
    rcases reads.findEntryBody_settles positive name ends with
      ⟨outcome, within, once, continues⟩
    apply Loop.Settles.of_body within once
    intro next goesOn
    rcases continues next goesOn with ⟨rest, shorter, later, endsLater⟩
    exact induction rest.length (length ▸ shorter) later endsLater rfl

end

theorem findEntry_settles (name : List Char) (ends : ¬ListsForever fs device dir) :
    Settles fun fuel => findEntry fs device fuel name dir := by
  rw [ListsForever] at ends
  push Not at ends
  rcases ends with ⟨records, last, reads, ends⟩
  exact (reads.findEntry_settles positive name ends).run

end

/-! ## Opening a path -/

section

variable {volume : Volume} {device : SectorDevice Unit}

def Volume.openFound (volume : Volume) (state : OpenState) (residual : List Char) :
    Except Error DirectoryEntry → Exec (OpenState ⊕ Except Error OFileDirectory)
  | .error .endOfFile => .ok (.inr (.error .notFound))
  | .error error => .ok (.inr (.error error))
  | .ok de =>
    match de.fileType with
    | .directory =>
      if de.cluster = 0 then do
        let root ← volume.unwrapRoot
        match root.dir with
        | none => .error .panicked
        | some dir => return .inl ⟨residual, dir, root.dirEnt, none⟩
      else
        .ok (.inl ⟨residual, getDirectory de.cluster, de, some state.currentDirectoryEntry⟩)
    | .file => .ok (.inr (.ok (.new de (some (getFile de.cluster de.size)) none)))

theorem openBody_eq (fuel : Nat) (state : OpenState) :
    volume.openBody device fuel state =
      if state.residual.length = 0 then
        .ok (.inr (.ok ⟨state.currentDirectoryEntry, none, some state.currentDir, state.pdirEnt⟩))
      else if (splitPath state.residual).1.length = 0 then
        .ok (.inr (.ok (.new state.currentDirectoryEntry none (some state.currentDir))))
      else
        findEntry volume.toFilesystem device fuel (splitPath state.residual).1 state.currentDir >>=
          volume.openFound state (splitPath state.residual).2 := by
  rw [Volume.openBody]
  rcases splitPath state.residual with ⟨sub, residual⟩
  dsimp only
  split_ifs
  · rfl
  · rfl
  · cases findEntry volume.toFilesystem device fuel sub state.currentDir with
    | error fault => rfl
    | ok found =>
      rcases found with error | de
      · cases error <;> rfl
      · simp only [Exec.ok_bind, Volume.openFound]
        cases de.fileType <;> rfl

theorem unwrapRoot_ends (volume : Volume) : volume.unwrapRoot ≠ .error .diverged := by
  rw [Volume.unwrapRoot]
  split <;> simp

theorem openFound_cases (volume : Volume) (state : OpenState) (residual : List Char)
    (found : Except Error DirectoryEntry) :
    volume.openFound state residual found ≠ .error .diverged ∧
      ∀ next, volume.openFound state residual found = .ok (.inl next) →
        next.residual = residual := by
  rcases found with error | de
  · cases error <;> simp [Volume.openFound]
  · rw [Volume.openFound]
    split
    · split_ifs
      · cases unwrapped : volume.unwrapRoot with
        | error fault =>
          have within := unwrapRoot_ends volume
          rw [unwrapped] at within
          simpa using within
        | ok root =>
          rw [Exec.ok_bind]
          split
          · simp
          · constructor
            · simp
            · intro next same
              cases same
              rfl
      · constructor
        · simp
        · intro next same
          cases same
          rfl
    · simp

variable
  (searches : ∀ name dir, Settles fun fuel => findEntry volume.toFilesystem device fuel name dir)

include searches

theorem openBody_settles (state : OpenState) :
    ∃ outcome, outcome ≠ .error .diverged ∧
      SettlesTo (fun fuel => volume.openBody device fuel state) outcome ∧
      ∀ next, outcome = .ok (.inl next) → next.residual.length < state.residual.length := by
  simp only [openBody_eq]
  by_cases finished : state.residual.length = 0
  · simp only [if_pos finished]
    exact ⟨_, by simp, ⟨0, fun _ _ => rfl⟩, by simp⟩
  · by_cases empty : (splitPath state.residual).1.length = 0
    · simp only [if_neg finished, if_pos empty]
      exact ⟨_, by simp, ⟨0, fun _ _ => rfl⟩, by simp⟩
    · simp only [if_neg finished, if_neg empty]
      rcases searches (splitPath state.residual).1 state.currentDir with
        ⟨outcome, within, enough, same⟩
      refine ⟨outcome >>= volume.openFound state (splitPath state.residual).2, ?_,
        ⟨enough, fun fuel many => congrArg (· >>= _) (same fuel many)⟩, ?_⟩
      · cases outcome with
        | error fault => simpa using within
        | ok found => exact (openFound_cases volume state _ found).1
      · intro next goesOn
        cases outcome with
        | error fault => cases goesOn
        | ok found =>
          rw [(openFound_cases volume state _ found).2 next goesOn]
          apply length_splitPath_lt
          intro nothing
          exact finished (by rw [nothing]; rfl)

theorem open_settles (state : OpenState) : Loop.Settles (volume.openBody device) state := by
  induction length : state.residual.length using Nat.strong_induction_on generalizing state with
  | _ size induction =>
    rcases openBody_settles searches state with ⟨outcome, within, once, shorter⟩
    apply Loop.Settles.of_body within once
    intro next goesOn
    exact induction _ (length ▸ shorter next goesOn) next rfl

theorem getParentDirEnt_settles (handle : OFileDirectory) :
    Settles fun fuel => handle.getParentDirEnt volume.toFilesystem device fuel := by
  simp only [OFileDirectory.getParentDirEnt]
  cases handle.dir with
  | none => exact Settles.const (by simp)
  | some dir => exact searches ['.', '.'] dir.reset

theorem openPath_settles (handle : OFileDirectory) (path : List Char) :
    Settles fun fuel => volume.openPath device fuel handle path := by
  by_cases here : path = ['.']
  · refine ⟨.ok (.ok handle), by simp, 0, fun fuel _ => ?_⟩
    dsimp only
    rw [Volume.openPath, if_pos here]
  · by_cases up : path = ['.', '.']
    · simp only [Volume.openPath, if_neg here, if_pos up, Volume.openParent]
      apply (getParentDirEnt_settles searches handle).bind
      intro found
      rcases found with error | pdir
      · simp
      · dsimp only
        split_ifs
        · have within := unwrapRoot_ends volume
          cases unwrapped : volume.unwrapRoot with
          | error fault =>
            rw [unwrapped] at within
            simpa using within
          | ok root => simp
        · split <;> simp
        · simp
    · simp only [Volume.openPath, if_neg here, if_neg up]
      cases unwrapped : volume.unwrapRoot with
      | error fault =>
        have within := unwrapRoot_ends volume
        rw [unwrapped] at within
        exact Settles.const (by simpa using within)
      | ok root =>
        simp only [Exec.ok_bind]
        rcases (if findSeparator path ≠ some 0 then (handle, path) else (root, path.drop 1)) with
          ⟨pfile, path⟩
        dsimp only
        cases pfile.dir with
        | none => exact Settles.const (by simp)
        | some dir => exact (open_settles searches ⟨path, dir.reset, pfile.dirEnt, none⟩).run

end

/-! ## Searches without end -/

def Below (name other : LongName) : Prop :=
  ∀ index, name.get index = other.get index ∨ name.get index = 0

theorem terminated_iff (name : LongName) :
    Terminated name ↔ ∃ index, name.get index &&& 0xff = 0 := by
  constructor
  · rintro ⟨unit, member, zero⟩
    rcases List.mem_iff_getElem.mp member with ⟨index, inside, rfl⟩
    rw [Vector.length_toList] at inside
    exact ⟨⟨index, inside⟩, by rwa [Vector.getElem_toList] at zero⟩
  · rintro ⟨index, zero⟩
    refine ⟨_, List.getElem_mem (by rw [Vector.length_toList]; exact index.isLt), ?_⟩
    rw [Vector.getElem_toList]
    exact zero

theorem below_emptyName (other : LongName) : Below emptyName other :=
  fun index => Or.inr (Vector.getElem_replicate index.isLt)

variable {name : LongName} {dir : Directory}

section

variable {other : LongName} (below : Below name other)

include below

theorem Below.terminated (terminated : Terminated other) : Terminated name := by
  rw [terminated_iff] at terminated ⊢
  rcases terminated with ⟨index, zero⟩
  refine ⟨index, ?_⟩
  rcases below index with same | nothing
  · rw [same, zero]
  · rw [nothing]
    rfl

theorem Below.collect (record : Record) : Below (record.collect name) (record.collect other) := by
  rw [Record.collect, Record.collect]
  split_ifs
  · exact below
  · intro index
    rw [get_copyLongName, get_copyLongName]
    split_ifs
    · exact Or.inl rfl
    · exact below index
  · exact below_emptyName emptyName

theorem Below.clean {records : List Record} (clean : Clean other records) : Clean name records := by
  induction records generalizing name other with
  | nil => trivial
  | cons record rest induction =>
    exact ⟨clean.1, fun isEntry => below.terminated (clean.2.1 isEntry),
      induction (below.collect record) clean.2.2⟩

end

section

variable {fs : Filesystem} {device : SectorDevice Unit}

variable {dir : Directory}

theorem ListsForever.readable (forever : ListsForever fs device dir) :
    ∃ data here, dir.readSector fs device = .ok (.ok data, here) :=
  (forever [] dir .start).2

theorem ListsForever.after (positive : 0 < fs.sectorsPerCluster) {last : Directory}
    (forever : ListsForever fs device dir) {records : List Record}
    (reads : Reads fs device dir records last) : ListsForever fs device last := by
  intro others final further
  rcases forever _ _ (reads.trans positive further) with ⟨clean, readable⟩
  rw [clean_append] at clean
  exact ⟨(below_emptyName _).clean clean.2, readable⟩

theorem ListsForever.iterates (forever : ListsForever fs device dir) (longEntry : LongName) :
    (∃ next, nextEntryBody fs device (dir, longEntry) = .ok (.inl next)) ∨
      ∃ entry next, nextEntryBody fs device (dir, longEntry) = .ok (.inr (.ok entry, next)) := by
  rcases forever.readable with ⟨data, here, found⟩
  have passable := (forever _ _ (.sector found .start)).1.passable
  rw [List.append_nil] at passable
  rw [nextEntryBody_sector found]
  rcases findRecord_passable passable longEntry with ⟨entry, rest, scanned⟩ | ⟨behind, scanned⟩
  · rw [scanned]
    exact Or.inr ⟨_, _, rfl⟩
  · rw [scanned]
    exact Or.inl ⟨_, rfl⟩

/-- Where a call on such a directory returns, it returns an entry with a terminated long
name, and the directory goes on forever behind it. -/
theorem ListsForever.nextEntry (positive : 0 < fs.sectorsPerCluster)
    (forever : ListsForever fs device dir) (fuel : Nat) :
    dir.nextEntry fs device fuel = .error .diverged ∨
      ∃ entry next, dir.nextEntry fs device fuel = .ok (.ok entry, next) ∧
        Terminated entry.longName ∧ ListsForever fs device next := by
  have iterates : ∀ reached name,
      Loop.Visits (nextEntryBody fs device) (dir, emptyName) (reached, name) →
      (∃ next, nextEntryBody fs device (reached, name) = .ok (.inl next)) ∨
        ∃ entry next, nextEntryBody fs device (reached, name) = .ok (.inr (.ok entry, next)) := by
    intro reached name visits
    rcases visits_reads positive visits with ⟨skipped, reads, _⟩
    exact (forever.after positive reads).iterates name
  cases called : dir.nextEntry fs device fuel with
  | error fault =>
    refine Or.inl ?_
    by_contra within
    rcases Loop.visits_of_fault called (by simpa using within) with
      ⟨⟨reached, name⟩, visits, faulted⟩
    rcases iterates reached name visits with ⟨_, went⟩ | ⟨_, _, returned⟩
    · cases faulted.symm.trans went
    · cases faulted.symm.trans returned
  | ok outcome =>
    refine Or.inr ?_
    rcases outcome with ⟨error | entry, next⟩
    · rcases Loop.visits_of_run called with ⟨⟨reached, name⟩, visits, failed⟩
      rcases iterates reached name visits with ⟨_, went⟩ | ⟨_, _, returned⟩
      · cases failed.symm.trans went
      · cases failed.symm.trans returned
    · rcases nextEntry_entry positive called with ⟨skipped, record, reads, skips, isEntry, rfl⟩
      refine ⟨_, _, rfl, ?_, forever.after positive reads⟩
      have clean := (forever _ _ reads).1
      rw [clean_append] at clean
      exact clean.2.2.1 isEntry

def tooLong : List Char := List.replicate 300 'a'

theorem compareName_tooLong {entry : DirectoryEntry} (terminated : Terminated entry.longName) :
    compareName tooLong entry = .ok false := by
  have length : (EfiStr.utf8 tooLong).length = 300 := by decide +kernel
  have short : compareShortName tooLong entry = false := by
    rw [compareShortName, beq_eq_false_iff_ne]
    intro same
    have size := (List.takeWhile_prefix (· ≠ 0) (l := entry.name.toList)).length_le
    rw [same, length, Vector.length_toList] at size
    exact absurd size (by decide)
  rw [compareName_of_slice (EfiStr.OsStr.fromU16SliceWithNul_eq terminated), short, Bool.false_or,
    Except.ok.injEq, beq_eq_false_iff_ne]
  intro same
  have size := EfiStr.OsStr.length_beforeLowNul_le entry.longName.toList
  have sizes := congrArg List.length same
  rw [List.length_map, List.length_map, tooLong, List.length_replicate] at sizes
  rw [sizes, Vector.length_toList] at size
  exact absurd size (by decide)

theorem findEntry_diverges (positive : 0 < fs.sectorsPerCluster)
    (forever : ListsForever fs device dir) (inner fuel : Nat) :
    Loop.run (findEntryBody fs device inner tooLong) fuel dir = .error .diverged := by
  induction fuel generalizing dir with
  | zero => rfl
  | succ fuel induction =>
    rw [Loop.run, findEntryBody]
    rcases forever.nextEntry positive inner with
      diverged | ⟨entry, next, called, terminated, later⟩
    · rw [diverged]
      rfl
    · simp only [called, Exec.ok_bind, compareName_tooLong terminated]
      exact induction later

/-! ## Where such a search can begin -/

theorem readSector_clusterStart (dir : Directory) (clusterStart : Option UInt32) :
    readSector fs device { dir with clusterStart := clusterStart } =
      (dir.readSector fs device).map fun read =>
        (read.1, { read.2 with clusterStart := clusterStart }) := by
  have sought : getSector fs device { dir with clusterStart := clusterStart } =
      (dir.getSector fs device).map fun found =>
        (found.1, { found.2 with clusterStart := clusterStart }) := by
    simp only [getSector]
    split
    · rfl
    · split_ifs
      · split <;> rfl
      · rfl
  rw [readSector, readSector, sought]
  cases dir.getSector fs device with
  | error fault => rfl
  | ok outcome =>
    rcases outcome with ⟨error | sector, here⟩
    · rfl
    · simp only [Except.map, Exec.ok_bind]
      split <;> rfl

theorem Directory.Reads.clusterStart {last : Directory} {records : List Record}
    (reads : Reads fs device dir records last) (clusterStart : Option UInt32) :
    Reads fs device { dir with clusterStart := clusterStart } records
      { last with clusterStart := clusterStart } := by
  have moved : ∀ {dir here : Directory} {data : Sector},
      dir.readSector fs device = .ok (.ok data, here) →
      readSector fs device { dir with clusterStart := clusterStart } =
        .ok (.ok data, { here with clusterStart := clusterStart }) := by
    intro dir here data found
    rw [readSector_clusterStart, found]
    rfl
  induction reads with
  | start => exact .start
  | part index found low high => exact .part index (moved found) low high
  | sector found _ induction =>
    have step := Reads.sector (moved found) induction
    exact step

theorem ListsForever.clusterStart (forever : ListsForever fs device dir)
    (clusterStart : Option UInt32) :
    ListsForever fs device { dir with clusterStart := clusterStart } := by
  intro records last reads
  rcases forever _ _ (reads.clusterStart dir.clusterStart) with ⟨clean, data, here, found⟩
  refine ⟨clean, data, { here with clusterStart := last.clusterStart }, ?_⟩
  have back : readSector fs device last = _ :=
    readSector_clusterStart { last with clusterStart := dir.clusterStart } last.clusterStart
  rw [found] at back
  exact back

theorem ListsForever.congr {other : Directory} (forever : ListsForever fs device dir)
    (same : dir.readSector fs device = other.readSector fs device) :
    ListsForever fs device other := by
  intro records last reads
  cases reads with
  | start => exact ⟨trivial, same ▸ forever.readable⟩
  | part index found low high => exact forever _ _ (.part index (same.trans found) low high)
  | sector found later => exact forever _ _ (.sector (same.trans found) later)

variable (positive : 0 < fs.sectorsPerCluster)

include positive

theorem ListsForever.nextCluster (remaining : Nat) (forever : ListsForever fs device dir)
    {cluster : UInt32} (here : dir.cluster = some cluster)
    (left : fs.sectorsPerCluster.toNat - dir.sector.toNat = remaining) :
    ∃ next, ListsForever fs device { dir with cluster := some next, sector := 0, offset := 0 } := by
  induction remaining generalizing dir with
  | zero =>
    have passed : fs.sectorsPerCluster ≤ dir.sector := UInt32.le_iff_toNat_le.mpr (by omega)
    rcases forever.readable with ⟨data, there, found⟩
    rcases getSector_of_readSector found with ⟨sector, sought⟩
    rw [getSector, here] at sought
    simp only [ge_iff_le, if_pos passed] at sought
    split at sought
    · cases sought
    · cases sought
    · rename_i next _ following
      refine ⟨next, forever.congr ?_⟩
      rw [readSector, readSector, getSector_following here passed following positive]
  | succ remaining induction =>
    have inside : dir.sector < fs.sectorsPerCluster := UInt32.lt_iff_toNat_lt.mpr (by omega)
    rcases forever.readable with ⟨data, there, found⟩
    rcases getSector_of_readSector found with ⟨sector, sought⟩
    rw [getSector_inside dir here inside] at sought
    cases sought
    have later := forever.after positive (.sector found .start)
    apply induction later here
    have bound := fs.sectorsPerCluster.toNat_lt
    rw [pastSector, UInt32.toNat_add, UInt32.toNat_one]
    omega

theorem ListsForever.firstSector {sector : UInt32} {offset : Nat}
    (forever : ListsForever fs device (fixed sector offset)) :
    ListsForever fs device (fixed 0 0) := by
  have next : ∀ {sector : UInt32} {offset : Nat}, ListsForever fs device (fixed sector offset) →
      ListsForever fs device (fixed (sector + 1) 0) := by
    intro sector offset forever
    rcases forever.readable with ⟨data, here, found⟩
    rcases readSector_fixed_eq found with ⟨rfl, _⟩
    exact forever.after positive (.sector found .start)
  have further : ∀ count, ListsForever fs device (fixed (sector + UInt32.ofNat (count + 1)) 0) := by
    intro count
    induction count with
    | zero => exact next forever
    | succ count induction =>
      rw [UInt32.ofNat_add, ← UInt32.add_assoc]
      exact next induction
  have bound := sector.toNat_lt
  have wrapped : sector + UInt32.ofNat (2 ^ 32 - 1 - sector.toNat + 1) = 0 := by
    rw [← UInt32.toNat_inj, UInt32.toNat_add, UInt32.toNat_ofNat', UInt32.toNat_zero]
    omega
  have first := further (2 ^ 32 - 1 - sector.toNat)
  rwa [wrapped] at first

theorem ListsForever.restartable (forever : ListsForever fs device dir) :
    ∃ other : Directory, other.reset = other ∧ ListsForever fs device other := by
  cases here : dir.cluster with
  | none =>
    have inRoot := forever.clusterStart none
    rw [here] at inRoot
    exact ⟨fixed 0 0, rfl, inRoot.firstSector positive⟩
  | some cluster =>
    rcases forever.nextCluster positive _ here rfl with ⟨next, later⟩
    exact ⟨getDirectory next, rfl, later.clusterStart (some next)⟩

end

/-! ## Volumes on which lookups end -/

theorem unwrapRoot_returns {volume : Volume} (known : volume.fatType ≠ .unknown) :
    ∃ root, volume.unwrapRoot = .ok root := by
  rw [Volume.unwrapRoot, Volume.root]
  cases width : volume.fatType with
  | unknown => exact absurd width known
  | fat12 => exact ⟨_, rfl⟩
  | fat16 => exact ⟨_, rfl⟩
  | fat32 => exact ⟨_, rfl⟩

theorem openPath_diverges {volume : Volume} {device : SectorDevice Unit}
    (positive : 0 < volume.sectorsPerCluster) (known : volume.fatType ≠ .unknown)
    (restarted : dir.reset = dir)
    (forever : ListsForever volume.toFilesystem device dir) (dirEnt : DirectoryEntry) (fuel : Nat) :
    volume.openPath device fuel (.new dirEnt none (some dir)) tooLong = .error .diverged := by
  have relative : findSeparator tooLong = none := by decide +kernel
  have notHere : tooLong ≠ ['.'] := by decide +kernel
  have notUp : tooLong ≠ ['.', '.'] := by decide +kernel
  rcases unwrapRoot_returns known with ⟨root, unwrapped⟩
  rw [Volume.openPath, if_neg notHere, if_neg notUp, unwrapped, Exec.ok_bind,
    if_pos (by rw [relative]; simp)]
  change Loop.run (volume.openBody device fuel) fuel ⟨tooLong, dir.reset, dirEnt, none⟩ = _
  cases fuel with
  | zero => rfl
  | succ fuel =>
    have whole : splitPath tooLong = (tooLong, []) := by rw [splitPath, relative]
    have long : ¬tooLong.length = 0 := by decide +kernel
    rw [Loop.run, openBody_eq, if_neg long, restarted]
    dsimp only
    rw [whole, if_neg long, findEntry, findEntry_diverges positive forever (fuel + 1) (fuel + 1)]
    rfl

/-- Every call of `next_entry` and `open` ends exactly if from no position of a directory
on there are records without end at none of which a search stops. -/
theorem lookupTerminates_iff (volume : Volume) (content : UInt64 → Sector)
    (positive : 0 < volume.sectorsPerCluster) (known : volume.fatType ≠ .unknown) :
    LookupTerminates volume content ↔
      ∀ dir, ¬ListsForever volume.toFilesystem (.reliable content) dir := by
  constructor
  · intro terminates dir forever
    rcases forever.restartable positive with ⟨other, restarted, later⟩
    apply not_settles_of_diverges _ (terminates.openPath
      (.new (Volume.rootEntry 0) none (some other)) tooLong)
    exact openPath_diverges positive known restarted later _
  · intro ends
    constructor
    · intro dir
      apply nextEntry_settles positive
      intro forever
      exact ends dir fun records last reads =>
        ⟨clean_skipped (forever records last reads).1 emptyName, (forever records last reads).2⟩
    · exact openPath_settles fun name dir => findEntry_settles positive name (ends dir)

theorem readSector_offset {fs : Filesystem} {device : SectorDevice Unit} {here : Directory}
    {data : Sector} (found : dir.readSector fs device = .ok (.ok data, here))
    (aligned : dir.offset = 0) : here.offset = 0 := by
  rcases getSector_of_readSector found with ⟨sector, sought⟩
  rw [getSector] at sought
  split at sought
  · cases sought
    exact aligned
  · split_ifs at sought
    · split at sought
      · cases sought
      · cases sought
      · cases sought
        rfl
    · cases sought
      exact aligned

def oneEntry : Sector := Vector.ofFn fun index => if index.val < 11 then 0x41 else 0

/-- A volume on which each sector has an entry and an end mark. -/
theorem lookupTerminates_iff_one_entry :
    LookupTerminates ⟨⟨0, 10, 512, .fat32, 1, 0, 1⟩, 0, 2⟩ fun _ => oneEntry := by
  apply (lookupTerminates_iff _ _ (by decide) (by decide)).mpr
  intro dir forever
  rcases forever.readable with ⟨data, here, found⟩
  have later := forever.after (by decide) (.sector found .start)
  rcases later.readable with ⟨data', there, found'⟩
  have passable := (later _ _ (.sector found' .start)).1.passable
  rw [readSector_offset found' rfl, readSector_uniform found', List.append_nil,
    List.drop_zero] at passable
  have second := passable (Sector.record oneEntry 1) (List.mem_map_of_mem (List.mem_finRange 1))
  exact second.1 (by decide +kernel)

def circularCluster (sector : UInt64) : Sector :=
  if sector = 0 then Vector.ofFn fun index => if index.val % 4 = 0 then 2 else 0
  else Vector.replicate 512 0xe5

theorem readSector_circular (inside : dir = getDirectory 2 ∨ dir = (getDirectory 2).pastSector) :
    dir.readSector ⟨0, 10, 512, .fat32, 1, 0, 1⟩ (.reliable circularCluster) =
      .ok (.ok (Vector.replicate 512 0xe5), getDirectory 2) := by
  have successor : Filesystem.nextCluster ⟨0, 10, 512, .fat32, 1, 0, 1⟩
      (.reliable circularCluster) 2 () = .ok (.ok 2, ()) := by decide +kernel
  have sought : dir.getSector ⟨0, 10, 512, .fat32, 1, 0, 1⟩ (.reliable circularCluster) =
      .ok (.ok 1, getDirectory 2) := by
    rcases inside with rfl | rfl
    · rfl
    · exact getSector_following rfl (by decide) successor (by decide)
  rw [readSector, sought]
  rfl

theorem not_lookupTerminates_circular_cluster :
    ¬LookupTerminates ⟨⟨0, 10, 512, .fat32, 1, 0, 1⟩, 0, 2⟩ circularCluster := by
  intro terminates
  apply not_settles_of_diverges _ (terminates.nextEntry (getDirectory 2))
  intro fuel
  have free : ∀ record ∈ Sector.records (Vector.replicate 512 0xe5), record.Skipped := by
    decide +kernel
  have body : ∀ {dir : Directory}, dir = getDirectory 2 ∨ dir = (getDirectory 2).pastSector →
      ∀ name, ∃ behind, nextEntryBody ⟨0, 10, 512, .fat32, 1, 0, 1⟩ (.reliable circularCluster)
        (dir, name) = .ok (.inl ((getDirectory 2).pastSector, behind)) := by
    intro dir inside name
    rw [nextEntryBody_sector (readSector_circular inside)]
    change ∃ behind, (findRecord name (Sector.records (Vector.replicate 512 0xe5)) >>= _) = _
    rw [← List.append_nil (Sector.records _), findRecord_skipped free]
    exact ⟨_, rfl⟩
  apply Loop.run_diverges
  intro reached visits
  have inside := visits.invariant
    (fun state => state.1 = getDirectory 2 ∨ state.1 = (getDirectory 2).pastSector)
    (by
      intro state next inside stepped
      rcases body inside state.2 with ⟨behind, once⟩
      cases once.symm.trans stepped
      exact Or.inr rfl)
    (Or.inl rfl)
  rcases body inside reached.2 with ⟨behind, once⟩
  exact ⟨_, once⟩

end HypervisorFirmware.Fat
