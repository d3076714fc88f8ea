import HypervisorFirmware.Fat.DirectoryRecords
import HypervisorFirmware.Fat.Open

/-! # Faults while a directory is parsed

One call of `next_entry`, from any position in a directory, and the comparison of a
name with the entry it returns: where they leave an array, subtract below zero or never
return. -/

namespace HypervisorFirmware.Fat

open Directory

/-- A call returns, so does the comparison of any name with an entry it returns, and
every sector it reads is in a cluster for which `first_sector_of_cluster` does not
subtract below zero. -/
structure ParsesSafely (fs : Filesystem) (device : SectorDevice Unit) (dir : Directory) :
    Prop where
  returns : ∃ enough, ∀ fuel, enough ≤ fuel → ∃ result next,
    dir.nextEntry fs device fuel = .ok (result, next) ∧
      ∀ entry, result = .ok entry → ∀ name, ∃ equal, compareName name entry = .ok equal
  subtracts : ∀ reached name sector here cluster,
    Loop.Visits (nextEntryBody fs device) (dir, emptyName) (reached, name) →
    reached.getSector fs device = .ok (.ok sector, here) → here.cluster = some cluster →
    2 ≤ cluster

/-! ## The condition -/

def Terminated (name : LongName) : Prop := ∃ unit ∈ name.toList, unit &&& 0xff = 0

/-- The cluster of the next sector is a cluster of data, and the table has an entry for
it where one is needed. -/
def ChainSound (fs : Filesystem) (device : SectorDevice Unit) (dir : Directory) : Prop :=
  ∀ cluster, dir.cluster = some cluster →
    if dir.sector < fs.sectorsPerCluster then 2 ≤ cluster
    else
      match fs.nextCluster device cluster () with
      | .error _ => False
      | .ok (.error _, _) => True
      | .ok (.ok next, _) => 2 ≤ next

/-- The records and sectors ahead of a position that one call may read. -/
structure Parseable (fs : Filesystem) (device : SectorDevice Unit) (dir : Directory) : Prop where
  /-- Every part of a long name has its place, and long names are terminated. -/
  records : ∀ skipped record last, Reads fs device dir (skipped ++ [record]) last →
    (∀ other ∈ skipped, other.Skipped) →
    record.InSequence ∧ (record.IsEntry → Terminated (nameBehind emptyName skipped))
  chain : ∀ skipped last, Reads fs device dir skipped last →
    (∀ record ∈ skipped, record.Skipped) → ChainSound fs device last
  /-- Free records and parts of long names do not go on forever. -/
  ends : ∃ records last, Reads fs device dir records last ∧
    ((∃ record ∈ records, ¬record.Skipped) ∨
      ∀ data here, last.readSector fs device ≠ .ok (.ok data, here))

/-! ## Names and sectors -/

theorem compareName_endless (name : List Char) {entry : DirectoryEntry}
    (endless : ¬Terminated entry.longName) : compareName name entry = .error .undefined := by
  rw [compareName, EfiStr.OsStr.fromU16SliceWithNul_endless endless]
  rfl

theorem compareName_returns_iff (name : List Char) (entry : DirectoryEntry) :
    (∃ equal, compareName name entry = .ok equal) ↔ Terminated entry.longName := by
  by_cases terminated : Terminated entry.longName
  · rw [compareName_of_slice (EfiStr.OsStr.fromU16SliceWithNul_eq terminated)]
    simp [terminated]
  · rw [compareName_endless name terminated]
    simp [terminated]

variable {fs : Filesystem} {device : SectorDevice Unit}

theorem readSector_faults_iff (dir : Directory) (fault : Fault) :
    dir.readSector fs device = .error fault ↔ dir.getSector fs device = .error fault := by
  rw [readSector_eq]
  cases dir.getSector fs device <;> simp [Except.map]

def SoundSector : Exec (Except Error UInt32 × Directory) → Prop
  | .error _ => False
  | .ok (.error _, _) => True
  | .ok (.ok _, here) => ∀ cluster, here.cluster = some cluster → 2 ≤ cluster

theorem chainSound_iff (dir : Directory) :
    ChainSound fs device dir ↔ SoundSector (dir.getSector fs device) := by
  rw [ChainSound, getSector]
  cases here : dir.cluster with
  | none => simp [SoundSector, here]
  | some cluster =>
    by_cases inside : dir.sector < fs.sectorsPerCluster
    · simp [SoundSector, here, inside, UInt32.not_le.mpr inside]
    · have passed := UInt32.not_lt.mp inside
      cases next : fs.nextCluster device cluster () with
      | error fault => simp [SoundSector, inside, passed, next]
      | ok outcome =>
        rcases outcome with ⟨error | following, _⟩
        all_goals simp [SoundSector, inside, passed, next]

theorem getSector_of_readSector {dir here : Directory} {data : Sector}
    (found : dir.readSector fs device = .ok (.ok data, here)) :
    ∃ sector, dir.getSector fs device = .ok (.ok sector, here) := by
  rcases readSector_eq_ok.mp found with ⟨error | sector, located, read⟩
  · cases read
  · exact ⟨sector, located⟩

/-! ## Both directions -/

section

variable (positive : 0 < fs.sectorsPerCluster)

include positive

variable {dir : Directory} {skipped : List Record}

theorem Parseable.returns (parseable : Parseable fs device dir) :
    ∃ enough, ∀ fuel, enough ≤ fuel → ∃ result next,
      dir.nextEntry fs device fuel = .ok (result, next) ∧
        ∀ entry, result = .ok entry → ∀ name, ∃ equal, compareName name entry = .ok equal := by
  rcases parseable.ends with ⟨records, last, reads, ending⟩
  rcases skipped_or_stop records with skips | ⟨skipped, record, rest, rfl, skips, stops⟩
  · -- Everything is gone over, and the sector behind it cannot be read.
    have sound := (chainSound_iff last).mp (parseable.chain records last reads skips)
    cases found : last.readSector fs device with
    | error fault =>
      rw [(readSector_faults_iff last fault).mp found] at sound
      exact sound.elim
    | ok outcome =>
      rcases outcome with ⟨error | data, here⟩
      · rcases reads.nextEntry_unreadable positive skips (.ok (error, here)) found with
          ⟨enough, returns⟩
        refine ⟨enough, fun fuel many => ⟨_, _, returns fuel many, ?_⟩⟩
        intro entry failed
        cases failed
      · rcases ending with ⟨record, member, stops⟩ | unreadable
        · exact absurd (skips record member) stops
        · exact absurd found (unreadable data here)
  · rcases (List.append_cons skipped record rest ▸ reads).split positive with ⟨middle, first, _⟩
    have sound := parseable.records skipped record middle first skips
    by_cases zero : record.first = 0
    · rcases reads.nextEntry_endOfFile positive skips zero with ⟨enough, stop, returns, _⟩
      refine ⟨enough, fun fuel many => ⟨_, _, returns fuel many, ?_⟩⟩
      intro entry failed
      cases failed
    · have isEntry : record.IsEntry := by
        by_contra notEntry
        exact stops ⟨zero, notEntry, sound.1⟩
      rcases reads.nextEntry positive skips isEntry with ⟨enough, next, returns, _⟩
      refine ⟨enough, fun fuel many => ⟨_, _, returns fuel many, ?_⟩⟩
      intro entry same name
      cases same
      exact (compareName_returns_iff name _).mpr (sound.2 isEntry)

theorem Parseable.parsesSafely (parseable : Parseable fs device dir) :
    ParsesSafely fs device dir := by
  refine ⟨parseable.returns positive, ?_⟩
  intro reached name sector here cluster visits found inCluster
  rcases visits_reads positive visits with ⟨skipped, reads, skips, _⟩
  have sound := (chainSound_iff reached).mp (parseable.chain skipped reached reads skips)
  rw [found] at sound
  exact sound cluster inCluster

omit positive in
theorem ParsesSafely.returns_of_agree (safe : ParsesSafely fs device dir)
    {enough : Nat} {outcome : Exec (Except Error DirectoryEntry × Directory)}
    (agree : ∀ fuel, enough ≤ fuel → dir.nextEntry fs device fuel = outcome) :
    ∃ result next, outcome = .ok (result, next) ∧
      ∀ entry, result = .ok entry → ∀ name, ∃ equal, compareName name entry = .ok equal := by
  rcases safe.returns with ⟨enough', returns⟩
  rcases returns (max enough enough') (Nat.le_max_right _ _) with ⟨result, next, returned, compares⟩
  exact ⟨result, next, (agree _ (Nat.le_max_left _ _)).symm.trans returned, compares⟩

theorem ParsesSafely.sound_record {last : Directory} (safe : ParsesSafely fs device dir)
    {record : Record}
    (reads : Reads fs device dir (skipped ++ [record]) last)
    (skips : ∀ other ∈ skipped, other.Skipped) :
    record.InSequence ∧ (record.IsEntry → Terminated (nameBehind emptyName skipped)) := by
  constructor
  · by_contra invalid
    rcases reads.nextEntry_panics positive skips invalid with ⟨enough, panics⟩
    rcases safe.returns_of_agree panics with ⟨_, _, returned, _⟩
    cases returned
  · intro isEntry
    rcases reads.nextEntry positive skips isEntry with ⟨enough, next, delivers, _⟩
    rcases safe.returns_of_agree delivers with ⟨_, _, same, compares⟩
    rw [Except.ok.injEq, Prod.mk.injEq] at same
    exact (compareName_returns_iff [] _).mp (compares _ same.1.symm [])

theorem ParsesSafely.chainSound {last : Directory} (safe : ParsesSafely fs device dir)
    (reads : Reads fs device dir skipped last)
    (skips : ∀ record ∈ skipped, record.Skipped) : ChainSound fs device last := by
  rw [chainSound_iff]
  rcases reads.visits positive skips with
    ⟨reached, name, visits, rfl | ⟨data, here, offset, read, rfl⟩⟩
  · cases found : reached.getSector fs device with
    | error fault =>
      rcases reads.nextEntry_unreadable positive skips (.error fault)
        ((readSector_faults_iff reached fault).mpr found) with ⟨enough, faults⟩
      rcases safe.returns_of_agree faults with ⟨_, _, returned, _⟩
      cases returned
    | ok outcome =>
      rcases outcome with ⟨error | sector, here⟩
      · trivial
      · intro cluster inCluster
        exact safe.subtracts reached name sector here cluster visits found inCluster
  · rcases getSector_of_readSector read with ⟨sector, found⟩
    rw [getSector_again positive found offset]
    intro cluster inCluster
    exact safe.subtracts reached name sector here cluster visits found inCluster

theorem ParsesSafely.comes_to_end (safe : ParsesSafely fs device dir) :
    ∃ records last, Reads fs device dir records last ∧
      ((∃ record ∈ records, ¬record.Skipped) ∨
        ∀ data here, last.readSector fs device ≠ .ok (.ok data, here)) := by
  rcases safe.returns with ⟨enough, returns⟩
  rcases returns enough (Nat.le_refl _) with ⟨result, next, returned, _⟩
  rcases Loop.visits_of_run returned with ⟨⟨reached, name⟩, visits, last⟩
  rcases visits_reads positive visits with ⟨skipped, reads, skips, _⟩
  rcases Classical.em (∃ data here, reached.readSector fs device = .ok (.ok data, here)) with
    ⟨data, here, found⟩ | unreadable
  · have further := reads.trans positive (.sector found .start)
    refine ⟨_, _, further, Or.inl ?_⟩
    by_contra endless
    push Not at endless
    rw [List.forall_mem_append, List.append_nil] at endless
    have went := nextEntryBody_sector found name
    rw [← List.append_nil (data.records.drop here.offset), findRecord_skipped endless.2] at went
    cases last.symm.trans went
  · push Not at unreadable
    exact ⟨skipped, reached, reads, Or.inr unreadable⟩

theorem ParsesSafely.parseable (safe : ParsesSafely fs device dir) :
    Parseable fs device dir where
  records _ _ _ reads skips := safe.sound_record positive reads skips
  chain _ _ reads skips := safe.chainSound positive reads skips
  ends := safe.comes_to_end positive

end

/-- A call and the comparison with its entry are safe exactly if every part of a long
name before the next entry has its place, the long name is terminated, the clusters
are clusters of data with entries in the table, and an entry, the end mark or a sector
that cannot be read comes at all. -/
theorem parsesSafely_iff_parseable (fs : Filesystem) (device : SectorDevice Unit)
    (dir : Directory) (positive : 0 < fs.sectorsPerCluster) :
    ParsesSafely fs device dir ↔ Parseable fs device dir :=
  ⟨fun safe => safe.parseable positive, fun parseable => parseable.parsesSafely positive⟩

def longNamed : SectorDevice Unit := .reliable fun _ => .ofBytes (longPart ++ shortRecord)

/-- A directory with an entry that has a long name. -/
theorem parsesSafely_iff_parseable_long_name :
    Parseable ⟨0, 10, 512, .fat32, 1, 0, 1⟩ longNamed (getDirectory 2) := by
  apply (parsesSafely_iff_parseable _ _ _ (by decide)).mp
  obtain ⟨entry, last, body, terminated⟩ : ∃ entry last,
      nextEntryBody ⟨0, 10, 512, .fat32, 1, 0, 1⟩ longNamed (getDirectory 2, emptyName) =
        .ok (.inr (.ok entry, last)) ∧ Terminated entry.longName := by
    have names : (nextEntryBody ⟨0, 10, 512, .fat32, 1, 0, 1⟩ longNamed
        (getDirectory 2, emptyName)).map (Sum.elim (fun _ => []) fun result =>
          result.1.toOption.elim [] fun entry => entry.longName.toList.take 2) =
        .ok [0x61, 0] := by decide +kernel
    rcases outcome : nextEntryBody ⟨0, 10, 512, .fat32, 1, 0, 1⟩ longNamed
      (getDirectory 2, emptyName) with fault | next | ⟨error | entry, last⟩
    all_goals rw [outcome] at names
    · cases names
    · cases names
    · cases names
    · have both : entry.longName.toList.take 2 = [0x61, 0] := Except.ok.inj names
      have zero : 0 ∈ entry.longName.toList.take 2 := by simp [both]
      exact ⟨entry, last, rfl, 0, List.mem_of_mem_take zero, rfl⟩
  constructor
  · refine ⟨1, fun fuel many => ⟨.ok entry, last, ?_, ?_⟩⟩
    · obtain ⟨more, rfl⟩ := Nat.exists_eq_add_of_le' many
      have once : Loop.run (nextEntryBody ⟨0, 10, 512, .fat32, 1, 0, 1⟩ longNamed) (more + 1)
          (getDirectory 2, emptyName) = .ok (.ok entry, last) := by rw [Loop.run, body]
      exact once
    · rintro _ ⟨⟩ name
      exact (compareName_returns_iff name entry).mpr terminated
  · intro reached name sector here cluster visits found inCluster
    rcases visits.cases_start with same | ⟨next, went, _⟩
    · rw [Prod.mk.injEq] at same
      rw [same.1] at found
      cases found
      cases inCluster
      decide
    · rw [body] at went
      cases went

def unnumberedParts : Sector :=
  Vector.ofFn fun index => if index.val % 32 = 11 then 0x0f else 0x40

/-- A directory that begins with such a part: the subtraction of one wraps, and the slice
is out of range. -/
theorem not_parsesSafely_unnumbered_part :
    ¬ParsesSafely ⟨0, 10, 512, .fat32, 1, 0, 1⟩ (.reliable fun _ => unnumberedParts)
      (getDirectory 2) := by
  intro safe
  have body : ∀ name, nextEntryBody ⟨0, 10, 512, .fat32, 1, 0, 1⟩
      (.reliable fun _ => unnumberedParts) (getDirectory 2, name) = .error .panicked := by
    intro name
    have nonzero : (unnumberedParts.record ⟨0, by decide⟩).first ≠ 0 := by decide +kernel
    have notEntry : ¬(unnumberedParts.record ⟨0, by decide⟩).IsEntry := by decide +kernel
    have invalid : ¬(unnumberedParts.record ⟨0, by decide⟩).InSequence := by decide +kernel
    have scanned : findRecord name (unnumberedParts.records.drop 0) = .error .panicked := by
      rw [drop_records unnumberedParts (by decide), findRecord, if_neg nonzero, if_neg notEntry,
        if_neg invalid]
    rw [nextEntryBody_sector rfl]
    change (findRecord name (unnumberedParts.records.drop 0) >>= _) = _
    rw [scanned]
    rfl
  rcases safe.returns with ⟨enough, returns⟩
  rcases returns (enough + 1) (Nat.le_succ enough) with ⟨result, next, returned, _⟩
  rw [nextEntry, Loop.run, body] at returned
  cases returned

end HypervisorFirmware.Fat
