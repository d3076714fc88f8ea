import HypervisorFirmware.Fat.DirectoryRecords

/-! # Entries and the long names they are listed with

`next_entry` puts a long name together from whatever parts it has come across since the
last entry, and leaves out nothing but free records and parts of long names. -/

namespace HypervisorFirmware.Fat

open Directory

/-! ## Long names as they should be -/

namespace Record

def IsPart (record : Record) : Prop :=
  record.first ≠ 0 ∧ record.first ≠ 0xe5 ∧ record.flags = 0x0f

/-- The checksum of a short name, which the parts of its long name carry. -/
def checksum (record : Record) : UInt8 :=
  (record.toList.take efiFatShortNameLen).foldl
    (fun sum byte => (sum <<< 7) + (sum >>> 1) + byte) 0

def partChecksum (record : Record) : UInt8 := record.bytes 13

def firstUnit (record : Record) : UInt16 := record.bytes.readUInt16 1

end Record

/-- Parts with the numbers down to one that carry the checksum of a short name. -/
def PartsDown (owner : Record) : List Record → Prop
  | [] => True
  | part :: rest =>
    part.IsPart ∧ part.sequence = rest.length + 1 ∧ part.partChecksum = owner.checksum ∧
      PartsDown owner rest

/-- A complete long name for a short name: the part that comes first is marked as the
last one of the name. -/
def CompleteRun (owner : Record) (run : List Record) : Prop :=
  PartsDown owner run ∧ ∃ part rest, run = part :: rest ∧ part.first &&& 0x40 = 0x40

/-- The entry comes from a record that is in use, is neither a part of a long name nor a
label, and has a long name only if the records before it are a complete long name for
it. -/
structure OwnEntry (before : List Record) (record : Record) (entry : DirectoryEntry) :
    Prop where
  comes : entry = record.entry entry.longName
  used : record.first ≠ 0 ∧ record.first ≠ 0xe5
  notPart : record.flags ≠ 0x0f
  notLabel : record.flags &&& 0x08 = 0
  named : entry.longName.get 0 ≠ 0 →
    ∃ others run, before = others ++ run ∧ CompleteRun record run

/-- Every entry that calls on a directory return is listed as its own. The records that
a call reads begin behind the last entry, and no complete long name begins before. -/
def ListsOwn (fs : Filesystem) (device : SectorDevice Unit) (start : Directory) : Prop :=
  ∀ fuel calls responses dir entry next,
    start.nextEntries fs device fuel calls = .ok (responses, dir) →
    dir.nextEntry fs device fuel = .ok (.ok entry, next) →
    ∃ before record, Reads fs device dir (before ++ [record]) next ∧
      (∀ other ∈ before, ¬other.IsEntry) ∧ OwnEntry before record entry

/-! ## The condition -/

/-- The last part with the number one since the last entry has a first unit. -/
def BeginsName (records : List Record) : Prop :=
  ∃ before part after, records = before ++ part :: after ∧
    part.IsPart ∧ part.sequence = 1 ∧ part.firstUnit ≠ 0 ∧
    ∀ other ∈ after, ¬other.IsEntry ∧ ¬(other.IsPart ∧ other.sequence = 1)

/-- No ordinary record that calls come to is a label, and none follows a part with the
number one but behind a complete long name of its own. -/
def OwnRecords (fs : Filesystem) (device : SectorDevice Unit) (start : Directory) : Prop :=
  ∀ before record last, Reads fs device start (before ++ [record]) last →
    (∀ other ∈ before, other.Passable) → record.IsEntry →
    record.flags &&& 0x08 = 0 ∧
      (BeginsName before → ∃ others run, before = others ++ run ∧ CompleteRun record run)

/-! ## Where the first unit of a name comes from -/

theorem beginsName_append (records : List Record) (record : Record) :
    BeginsName (records ++ [record]) ↔
      (record.IsPart ∧ record.sequence = 1 ∧ record.firstUnit ≠ 0) ∨
        (BeginsName records ∧ ¬record.IsEntry ∧ ¬(record.IsPart ∧ record.sequence = 1)) := by
  constructor
  · rintro ⟨before, part, after, split, isPart, number, unit, others⟩
    rcases List.eq_nil_or_concat after with rfl | ⟨rest, last, rfl⟩
    · rcases List.append_inj' split rfl with ⟨_, same⟩
      cases same
      exact Or.inl ⟨isPart, number, unit⟩
    · rw [List.concat_eq_append, ← List.cons_append, ← List.append_assoc] at split
      rcases List.append_inj' split rfl with ⟨rfl, same⟩
      cases same
      rw [List.concat_eq_append, List.forall_mem_append] at others
      exact Or.inr ⟨⟨before, part, rest, rfl, isPart, number, unit, others.1⟩,
        others.2 record List.mem_cons_self⟩
  · rintro (⟨isPart, number, unit⟩ |
      ⟨⟨before, part, after, rfl, isPart, number, unit, others⟩, last⟩)
    · exact ⟨records, record, [], rfl, isPart, number, unit, by simp⟩
    · refine ⟨before, part, after ++ [record], by simp, isPart, number, unit, ?_⟩
      exact List.forall_mem_append.mpr ⟨others, by simpa using last⟩

theorem get_zero_copyLongName (record : Record) (longEntry : LongName)
    (numbered : 1 ≤ record.sequence) :
    (record.copyLongName longEntry).get 0 =
      if record.sequence = 1 then record.firstUnit else longEntry.get 0 := by
  rw [get_copyLongName]
  change (if (record.sequence - 1) * 13 ≤ 0 ∧ 0 < (record.sequence - 1) * 13 + 13 then _ else _) = _
  by_cases one : record.sequence = 1
  · rw [if_pos (by omega), if_pos one, one]
    rfl
  · rw [if_neg (by omega), if_neg one]

theorem nameBehind_begins {records : List Record} (passable : ∀ record ∈ records, record.Passable) :
    (nameBehind emptyName records).get 0 ≠ 0 ↔ BeginsName records := by
  induction records using List.reverseRecOn with
  | nil =>
    apply iff_of_false
    · intro begins
      exact begins rfl
    · rintro ⟨before, part, after, split, _⟩
      simp at split
  | append_singleton records record induction =>
    rcases List.forall_mem_append.mp passable with ⟨passable, last⟩
    rcases last record List.mem_cons_self with ⟨nonzero, inSequence⟩
    rw [beginsName_append, ← induction passable, nameBehind_concat, Record.collect]
    by_cases unused : record.first = 0xe5
    · have notPart : ¬record.IsPart := fun isPart => isPart.2.1 unused
      have notEntry : ¬record.IsEntry := fun isEntry => isEntry.2.1 unused
      simp [unused, notPart, notEntry]
    · by_cases part : record.flags = 0x0f
      · have isPart : record.IsPart := ⟨nonzero, unused, part⟩
        have notEntry : ¬record.IsEntry := fun isEntry => isEntry.2.2 part
        rw [if_neg unused, if_pos part,
          get_zero_copyLongName _ _ (inSequence part nonzero unused).1]
        by_cases one : record.sequence = 1
        · simp [isPart, one]
        · simp [isPart, one, notEntry]
      · have isEntry : record.IsEntry := ⟨nonzero, unused, part⟩
        have notPart : ¬record.IsPart := fun isPart => part isPart.2.2
        rw [if_neg unused, if_neg part]
        apply iff_of_false
        · intro begins
          exact begins rfl
        · simp [isEntry, notPart]

/-! ## Entries come from the first ordinary record -/

variable {before others : List Record}

theorem first_entry_of_prefix {record other : Record}
    (begins : before ++ [record] <+: others ++ [other])
    (noneOther : ∀ item ∈ others, ¬item.IsEntry) (isEntry : record.IsEntry) :
    before = others ∧ record = other := by
  rcases begins with ⟨rest, whole⟩
  rcases List.eq_nil_or_concat rest with rfl | ⟨middle, last, rfl⟩
  · rw [List.append_nil] at whole
    rcases List.append_inj' whole rfl with ⟨rfl, same⟩
    cases same
    exact ⟨rfl, rfl⟩
  · rw [List.concat_eq_append, ← List.append_assoc] at whole
    rcases List.append_inj' whole rfl with ⟨rfl, _⟩
    exact absurd isEntry (noneOther record (by simp))

theorem first_entry_unique {fs : Filesystem} {device : SectorDevice Unit}
    {dir last final : Directory} {record other : Record}
    (first : Reads fs device dir (before ++ [record]) last)
    (second : Reads fs device dir (others ++ [other]) final)
    (none : ∀ item ∈ before, ¬item.IsEntry) (noneOther : ∀ item ∈ others, ¬item.IsEntry)
    (isEntry : record.IsEntry) (isEntryOther : other.IsEntry) :
    before = others ∧ record = other := by
  rcases first.comparable second with begins | begins
  · exact first_entry_of_prefix begins noneOther isEntry
  · rcases first_entry_of_prefix begins none isEntryOther with ⟨same, sameRecord⟩
    exact ⟨same.symm, sameRecord.symm⟩

theorem PartsDown.isPart {owner : Record} {run : List Record} (down : PartsDown owner run) :
    ∀ record ∈ run, record.IsPart := by
  induction run with
  | nil => simp
  | cons part rest induction =>
    rw [List.forall_mem_cons]
    exact ⟨down.1, induction down.2.2.2⟩

theorem CompleteRun.behind_entry {owner : Record} {run skipped : List Record}
    (complete : CompleteRun owner run) (upTo : UpToEntry before)
    (split : before ++ skipped = others ++ run) : ∃ rest, skipped = rest ++ run := by
  rcases List.append_eq_append_iff.mp split with ⟨more, rfl, rfl⟩ | ⟨more, rfl, rfl⟩
  · exact ⟨more, rfl⟩
  · rcases upTo with nothing | ⟨init, last, whole, isEntry⟩
    · rcases List.append_eq_nil_iff.mp nothing with ⟨_, rfl⟩
      exact ⟨[], rfl⟩
    · rcases List.eq_nil_or_concat more with rfl | ⟨rest, final, rfl⟩
      · exact ⟨[], rfl⟩
      · rw [List.concat_eq_append, ← List.append_assoc] at whole
        rcases List.append_inj' whole rfl with ⟨_, same⟩
        cases same
        have isPart := complete.1.isPart last (by simp)
        exact absurd isPart.2.2 isEntry.2.2

section

variable {fs : Filesystem} {device : SectorDevice Unit} (positive : 0 < fs.sectorsPerCluster)

include positive

theorem OwnRecords.listsOwn {start : Directory} (own : OwnRecords fs device start) :
    ListsOwn fs device start := by
  intro fuel calls responses dir entry next called returned
  rcases nextEntries_standing positive called with
    ⟨before, reads, passable, upTo⟩ | ⟨_, _, _, error, _, _, _, stays⟩
  · rcases nextEntry_entry positive returned with
      ⟨skipped, record, further, skips, isEntry, rfl⟩
    have whole := reads.trans positive further
    rw [← List.append_assoc] at whole
    have allPassable : ∀ other ∈ before ++ skipped, other.Passable :=
      List.forall_mem_append.mpr ⟨passable, fun other member => (skips other member).passable⟩
    rcases own (before ++ skipped) record next whole allPassable isEntry with ⟨notLabel, named⟩
    refine ⟨skipped, record, further, fun other member => (skips other member).2.1, ?_⟩
    refine ⟨rfl, ⟨isEntry.1, isEntry.2.1⟩, isEntry.2.2, notLabel, ?_⟩
    intro begins
    have behind : nameBehind emptyName (before ++ skipped) = nameBehind emptyName skipped := by
      rw [nameBehind_append, upTo.nameBehind]
    rcases named ((nameBehind_begins allPassable).mp (behind ▸ begins)) with
      ⟨others, run, split, complete⟩
    rcases complete.behind_entry upTo split with ⟨rest, ended⟩
    exact ⟨rest, run, ended, complete⟩
  · cases fuel with
    | zero => cases returned
    | succ fuel =>
      rw [nextEntry, Loop.run, stays] at returned
      cases returned

theorem ListsOwn.ownRecords {start : Directory} (lists : ListsOwn fs device start) :
    OwnRecords fs device start := by
  intro behind record last reads passable isEntry
  rcases reads.split positive with ⟨middle, first, second⟩
  rcases first.calls positive passable with
    ⟨before, skipped, dir, rfl, skips, upTo, toward, enough, calls, called⟩
  have onward := toward.trans positive second
  rcases onward.nextEntry positive skips isEntry with ⟨enough', next, returns, _⟩
  rcases called (max enough enough') (Nat.le_max_left _ _) with ⟨responses, ran⟩
  rcases lists _ calls responses dir _ next ran (returns _ (Nat.le_max_right _ _)) with
    ⟨others, other, reads', none, own⟩
  have notEntry : ∀ item ∈ skipped, ¬item.IsEntry := fun item member => (skips item member).2.1
  rcases first_entry_unique onward reads' notEntry none isEntry
    ⟨own.used.1, own.used.2, own.notPart⟩ with ⟨rfl, rfl⟩
  refine ⟨own.notLabel, ?_⟩
  intro begins
  have named := (nameBehind_begins passable).mpr begins
  rw [nameBehind_append, upTo.nameBehind] at named
  rcases own.named named with ⟨rest, run, rfl, complete⟩
  exact ⟨before ++ rest, run, (List.append_assoc _ _ _).symm, complete⟩

end

/-- Entries are listed as their own exactly if no ordinary record that calls come to is a
label, and none follows a part with the number one but behind a complete long name of
its own. -/
theorem listsOwn_iff_ownRecords (fs : Filesystem) (device : SectorDevice Unit)
    (start : Directory) (positive : 0 < fs.sectorsPerCluster) :
    ListsOwn fs device start ↔ OwnRecords fs device start :=
  ⟨fun lists => lists.ownRecords positive, fun own => own.listsOwn positive⟩

/-- A directory full of files without long names. -/
theorem listsOwn_iff_ownRecords_short_names :
    ListsOwn ⟨0, 10, 512, .fat32, 1, 0, 1⟩ (.reliable fun _ => Vector.replicate 512 0x41)
      (getDirectory 2) := by
  apply (listsOwn_iff_ownRecords _ _ _ (by decide)).mpr
  intro before record last reads _ _
  have ordinary : ∀ other ∈ Sector.records (Vector.replicate 512 0x41), other.flags = 0x41 := by
    decide +kernel
  have members := reads_uniform reads
  rw [List.forall_mem_append, List.forall_mem_singleton] at members
  constructor
  · rw [ordinary record members.2]
    decide
  · rintro ⟨others, part, rest, rfl, isPart, _⟩
    have flags := ordinary part (members.1 part (by simp))
    rw [isPart.2.2] at flags
    exact absurd flags (by decide)

/-- A directory whose records are labels. -/
theorem not_listsOwn_labels :
    ¬ListsOwn ⟨0, 10, 512, .fat32, 1, 0, 1⟩ (.reliable fun _ => Vector.replicate 512 0x08)
      (getDirectory 2) := by
  intro lists
  have labels : ∀ other ∈ Sector.records (Vector.replicate 512 0x08), other.flags = 0x08 := by
    decide +kernel
  rcases lists 1 0 [] (getDirectory 2) _ _ rfl rfl with ⟨before, record, reads, _, own⟩
  have label := labels record (reads_uniform reads record (by simp))
  have notLabel := own.notLabel
  rw [label] at notLabel
  exact absurd notLabel (by decide)

end HypervisorFirmware.Fat
