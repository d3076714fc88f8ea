import Mathlib.Data.List.Induction
import HypervisorFirmware.Fat.DirectoryScan

/-! # The records that an iterator reads

What `next_entry` reads, record by record, from any position in a directory on: a
call goes over free records and parts of long names, and stops at the first other
record, at the first sector it cannot read, or never. -/

namespace HypervisorFirmware.Fat

/-! ## Kinds of records -/

namespace Record

def IsEntry (record : Record) : Prop :=
  record.first ≠ 0 ∧ record.first ≠ 0xe5 ∧ record.flags ≠ 0x0f

/-- A record that `next_entry` goes over: a free one, or a part of a long name that
has its place in the name. -/
def Skipped (record : Record) : Prop :=
  record.first ≠ 0 ∧ ¬record.IsEntry ∧ record.InSequence

def Passable (record : Record) : Prop :=
  record.first ≠ 0 ∧ record.InSequence

instance (record : Record) : Decidable record.IsEntry :=
  inferInstanceAs (Decidable (_ ∧ _))

instance (record : Record) : Decidable record.Skipped :=
  inferInstanceAs (Decidable (_ ∧ _))

instance (record : Record) : Decidable record.Passable :=
  inferInstanceAs (Decidable (_ ∧ _))

def collect (longEntry : LongName) (record : Record) : LongName :=
  if record.first = 0xe5 then longEntry
  else if record.flags = 0x0f then record.copyLongName longEntry
  else emptyName

theorem IsEntry.inSequence {record : Record} (isEntry : record.IsEntry) : record.InSequence :=
  fun part => absurd part isEntry.2.2

theorem Passable.skipped_or_entry {record : Record} (passable : record.Passable) :
    record.Skipped ∨ record.IsEntry := by
  by_cases isEntry : record.IsEntry
  · exact Or.inr isEntry
  · exact Or.inl ⟨passable.1, isEntry, passable.2⟩

theorem Skipped.passable {record : Record} (skipped : record.Skipped) : record.Passable :=
  ⟨skipped.1, skipped.2.2⟩

theorem IsEntry.passable {record : Record} (isEntry : record.IsEntry) : record.Passable :=
  ⟨isEntry.1, isEntry.inSequence⟩

theorem IsEntry.collect {record : Record} (isEntry : record.IsEntry) (longEntry : LongName) :
    record.collect longEntry = emptyName := by
  rw [Record.collect, if_neg isEntry.2.1, if_neg isEntry.2.2]

end Record

def nameBehind (longEntry : LongName) (records : List Record) : LongName :=
  records.foldl Record.collect longEntry

theorem nameBehind_append (longEntry : LongName) (records others : List Record) :
    nameBehind longEntry (records ++ others) = nameBehind (nameBehind longEntry records) others :=
  List.foldl_append

theorem nameBehind_concat (longEntry : LongName) (records : List Record) (record : Record) :
    nameBehind longEntry (records ++ [record]) = record.collect (nameBehind longEntry records) :=
  nameBehind_append longEntry records [record]

theorem get_copyLongName (record : Record) (name : LongName) (index : Fin efiPathStringLength) :
    (record.copyLongName name).get index =
      if (record.sequence - 1) * 13 ≤ index.val ∧ index.val < (record.sequence - 1) * 13 + 13 then
        record.longNameUnits.getD (index.val - (record.sequence - 1) * 13) 0
      else name.get index :=
  Vector.getElem_ofFn index.isLt

def UpToEntry (records : List Record) : Prop :=
  records = [] ∨ ∃ others record, records = others ++ [record] ∧ record.IsEntry

theorem UpToEntry.nameBehind {records : List Record} (complete : UpToEntry records) :
    nameBehind emptyName records = emptyName := by
  rcases complete with rfl | ⟨others, record, rfl, isEntry⟩
  · rfl
  · rw [nameBehind_concat, isEntry.collect]

inductive Found
  | endOfFile
  | entry (entry : DirectoryEntry) (rest : List Record)
  | exhausted (longEntry : LongName)

def findRecord : LongName → List Record → Exec Found
  | longEntry, [] => .ok (.exhausted longEntry)
  | longEntry, record :: rest =>
    if record.first = 0 then .ok .endOfFile
    else if record.IsEntry then .ok (.entry (record.entry longEntry) rest)
    else if record.InSequence then findRecord (record.collect longEntry) rest
    else .error .panicked

variable {skipped : List Record} {longEntry : LongName}

theorem findRecord_skipped (skips : ∀ record ∈ skipped, record.Skipped)
    (longEntry : LongName) (rest : List Record) :
    findRecord longEntry (skipped ++ rest) = findRecord (nameBehind longEntry skipped) rest := by
  induction skipped generalizing longEntry with
  | nil => rfl
  | cons record others induction =>
    rcases skips record List.mem_cons_self with ⟨nonzero, notEntry, inSequence⟩
    rw [List.cons_append, findRecord, if_neg nonzero, if_neg notEntry, if_pos inSequence]
    exact induction (fun other member => skips other (List.mem_cons_of_mem _ member)) _

theorem flatScan_skipped (skips : ∀ record ∈ skipped, record.Skipped)
    (longEntry : LongName) (rest : List Record) :
    flatScan longEntry (skipped ++ rest) = flatScan (nameBehind longEntry skipped) rest := by
  induction skipped generalizing longEntry with
  | nil => rfl
  | cons record others induction =>
    have later := induction (fun other member => skips other (List.mem_cons_of_mem _ member))
    rcases skips record List.mem_cons_self with ⟨nonzero, notEntry, _⟩
    rw [List.cons_append, flatScan, if_neg nonzero, nameBehind, List.foldl_cons, Record.collect]
    by_cases unused : record.first = 0xe5
    · rw [if_pos unused, if_pos unused]
      exact later _
    · have part : record.flags = 0x0f := by
        by_contra other
        exact notEntry ⟨nonzero, unused, other⟩
      rw [if_neg unused, if_neg unused, if_pos part, if_pos part]
      exact later _

theorem findRecord_append (longEntry : LongName) (records others : List Record) :
    findRecord longEntry (records ++ others) = (do
      match ← findRecord longEntry records with
      | .endOfFile => return .endOfFile
      | .entry entry rest => return .entry entry (rest ++ others)
      | .exhausted longEntry => findRecord longEntry others) := by
  induction records generalizing longEntry with
  | nil => rfl
  | cons record rest induction =>
    rw [List.cons_append, findRecord, findRecord]
    split_ifs
    · rfl
    · rfl
    · exact induction _
    · rfl

theorem findRecord_endOfFile {records : List Record}
    (found : findRecord longEntry records = .ok .endOfFile) (other : LongName) :
    findRecord other records = .ok .endOfFile := by
  induction records generalizing longEntry other with
  | nil => cases found
  | cons record rest induction =>
    rw [findRecord] at found ⊢
    split_ifs at found ⊢
    · rfl
    · cases found
    · exact induction found _

theorem findRecord_eq_exhausted {behind : LongName} {records : List Record}
    (found : findRecord longEntry records = .ok (.exhausted behind)) :
    (∀ record ∈ records, record.Skipped) ∧ behind = nameBehind longEntry records := by
  induction records generalizing longEntry with
  | nil =>
    cases found
    exact ⟨by simp, rfl⟩
  | cons record rest induction =>
    rw [findRecord] at found
    split_ifs at found with last isEntry inSequence
    · cases found
    · cases found
    · rcases induction found with ⟨skips, named⟩
      exact ⟨List.forall_mem_cons.mpr ⟨⟨last, isEntry, inSequence⟩, skips⟩, named⟩

section

variable {records rest : List Record} {entry : DirectoryEntry}
  (found : findRecord longEntry records = .ok (.entry entry rest))

include found

theorem findRecord_eq_entry :
    ∃ skipped record, records = skipped ++ record :: rest ∧
      (∀ other ∈ skipped, other.Skipped) ∧ record.IsEntry ∧
      entry = record.entry (nameBehind longEntry skipped) := by
  induction records generalizing longEntry with
  | nil => cases found
  | cons record others induction =>
    rw [findRecord] at found
    split_ifs at found with last isEntry inSequence
    · cases found
    · cases found
      exact ⟨[], record, rfl, by simp, isEntry, rfl⟩
    · rcases induction found with ⟨skipped, stop, rfl, skips, stops, named⟩
      exact ⟨record :: skipped, stop, rfl,
        List.forall_mem_cons.mpr ⟨⟨last, isEntry, inSequence⟩, skips⟩, stops, named⟩

theorem findRecord_suffix : rest <:+ records := by
  rcases findRecord_eq_entry found with ⟨skipped, record, rfl, _⟩
  exact (List.suffix_cons record rest).trans (List.suffix_append skipped _)

end

theorem findRecord_passable {records : List Record}
    (passable : ∀ record ∈ records, record.Passable) (longEntry : LongName) :
    (∃ entry rest, findRecord longEntry records = .ok (.entry entry rest)) ∨
      ∃ behind, findRecord longEntry records = .ok (.exhausted behind) := by
  induction records generalizing longEntry with
  | nil => exact Or.inr ⟨longEntry, rfl⟩
  | cons record rest induction =>
    rcases List.forall_mem_cons.mp passable with ⟨⟨nonzero, inSequence⟩, passable⟩
    rw [findRecord, if_neg nonzero, if_pos inSequence]
    split_ifs
    · exact Or.inl ⟨_, _, rfl⟩
    · exact induction passable _

theorem skipped_or_stop (records : List Record) : (∀ record ∈ records, record.Skipped) ∨
      ∃ skipped record rest, records = skipped ++ record :: rest ∧
        (∀ other ∈ skipped, other.Skipped) ∧ ¬record.Skipped := by
  induction records with
  | nil => exact Or.inl (by simp)
  | cons record rest induction =>
    by_cases skips : record.Skipped
    · rcases induction with all | ⟨skipped, stop, others, rfl, all, stops⟩
      · exact Or.inl (List.forall_mem_cons.mpr ⟨skips, all⟩)
      · exact Or.inr ⟨record :: skipped, stop, others, rfl,
          List.forall_mem_cons.mpr ⟨skips, all⟩, stops⟩
    · exact Or.inr ⟨[], record, rest, rfl, by simp, skips⟩

/-! ## One sector -/

def Found.scanned : Found → Scanned
  | .endOfFile => .endOfFile
  | .entry de rest => .entry de (16 - rest.length)
  | .exhausted longEntry => .exhausted longEntry

@[simp] theorem length_records (data : Sector) : data.records.length = 16 := by
  simp [Sector.records]

theorem visitRecord_eq (data : Sector) (index : Fin 16) (longEntry : LongName) :
    visitRecord data index longEntry =
      if (data.record index).first = 0 then .ok (.inr .endOfFile)
      else if (data.record index).IsEntry then
        .ok (.inr (.entry ((data.record index).entry longEntry) (index.val + 1)))
      else if (data.record index).InSequence then
        .ok (.inl ((data.record index).collect longEntry))
      else .error .panicked := by
  rw [visitRecord]
  generalize data.record index = record
  by_cases last : record.first = 0
  · simp only [if_pos last]
  · by_cases unused : record.first = 0xe5
    · have notEntry : ¬record.IsEntry := fun isEntry => isEntry.2.1 unused
      have inSequence : record.InSequence := fun _ _ used => absurd unused used
      simp only [if_neg last, if_pos unused, if_neg notEntry, if_pos inSequence, Record.collect]
    · by_cases part : record.flags = 0x0f
      · have notEntry : ¬record.IsEntry := fun isEntry => isEntry.2.2 part
        have valid : record.InSequence ↔ ¬(record.sequence = 0 ∨ 20 < record.sequence) := by
          simp only [Record.InSequence, part, last, unused, ne_eq, not_false_eq_true, forall_const]
          omega
        simp only [if_neg last, if_neg unused, if_pos part, if_neg notEntry, Record.collect, valid,
          ite_not]
      · have isEntry : record.IsEntry := ⟨last, unused, part⟩
        simp only [if_neg last, if_neg unused, if_neg part, if_pos isEntry]

theorem scanFrom_eq_findRecord (data : Sector) (remaining index : Nat)
    (total : remaining = 16 - index) (longEntry : LongName) :
    Table.scanFrom (visitRecord data) .exhausted remaining index longEntry =
      (findRecord longEntry (data.records.drop index)).map Found.scanned := by
  induction remaining generalizing index longEntry with
  | zero =>
    rw [List.drop_eq_nil_of_le (by rw [length_records]; omega)]
    rfl
  | succ remaining induction =>
    have inside : index < 16 := by omega
    have offset : 16 - (data.records.drop (index + 1)).length = index + 1 := by
      rw [List.length_drop, length_records]
      omega
    have later := induction (index + 1) (by omega)
    rw [drop_records data inside, findRecord, Table.scanFrom, dif_pos inside, visitRecord_eq]
    generalize data.record ⟨index, inside⟩ = record
    split_ifs
    · rfl
    · simp only [Except.map, Found.scanned, offset]
    · exact later _
    · rfl

namespace Directory

variable {fs : Filesystem} {device : SectorDevice Unit}

def readSector (fs : Filesystem) (device : SectorDevice Unit) (dir : Directory) :
    Exec (Except Error Sector × Directory) := do
  match ← dir.getSector fs device with
  | (.error error, dir) => return (.error error, dir)
  | (.ok sector, dir) =>
    match fs.read device sector.toUInt64 () with
    | (none, _) => return (.error .blockError, dir)
    | (some data, _) => return (.ok data, dir)

def pastSector (dir : Directory) : Directory :=
  { dir with sector := dir.sector + 1, offset := 0 }

def nextEntries (fs : Filesystem) (device : SectorDevice Unit) (fuel calls : Nat)
    (dir : Directory) : Exec (List (Except Error DirectoryEntry) × Directory) :=
  Machine.run (fun dir (_ : Unit) => dir.nextEntry fs device fuel) dir (List.replicate calls ())

variable {dir here : Directory} {response : Except Error DirectoryEntry} {data : Sector}

variable (fs device) in
def sectorAt (sector : UInt32) : Except Error Sector :=
  match fs.read device sector.toUInt64 () with
  | (none, _) => .error .blockError
  | (some data, _) => .ok data

theorem readSector_eq (dir : Directory) :
    dir.readSector fs device =
      (dir.getSector fs device).map fun found => (found.1 >>= sectorAt fs device, found.2) := by
  rw [readSector]
  rcases dir.getSector fs device with fault | ⟨error | sector, here⟩
  · rfl
  · rfl
  · change _ = Except.ok (sectorAt fs device sector, here)
    rw [sectorAt, Exec.ok_bind]
    dsimp only
    rcases fs.read device sector.toUInt64 () with ⟨_ | data, _⟩ <;> rfl

theorem readSector_eq_ok {result : Except Error Sector} :
    dir.readSector fs device = .ok (result, here) ↔
      ∃ sought, dir.getSector fs device = .ok (sought, here) ∧
        sought >>= sectorAt fs device = result := by
  rw [readSector_eq]
  rcases dir.getSector fs device with fault | ⟨sought, there⟩
  · simp [Except.map]
  · simp [Except.map, and_comm]

theorem nextEntries_succ {next final : Directory} {fuel calls : Nat}
    {responses : List (Except Error DirectoryEntry)}
    (first : dir.nextEntry fs device fuel = .ok (response, next))
    (others : next.nextEntries fs device fuel calls = .ok (responses, final)) :
    dir.nextEntries fs device fuel (calls + 1) = .ok (response :: responses, final) := by
  rw [nextEntries] at others
  simp only [nextEntries, List.replicate_succ, Machine.run, first, others]

theorem nextEntries_repeat {fuel : Nat}
    (once : dir.nextEntry fs device fuel = .ok (response, dir)) (calls : Nat) :
    dir.nextEntries fs device fuel calls = .ok (List.replicate calls response, dir) := by
  induction calls with
  | zero => rfl
  | succ calls induction => exact nextEntries_succ once induction

theorem nextEntryBody_eq (dir : Directory) (longEntry : LongName) :
    nextEntryBody fs device (dir, longEntry) = (do
      match ← dir.readSector fs device with
      | (.error error, here) => return .inr (.error error, here)
      | (.ok data, here) =>
        match ← findRecord longEntry (data.records.drop here.offset) with
        | .endOfFile => return .inr (.error .endOfFile, here)
        | .entry entry rest =>
          return .inr (.ok entry, { here with offset := 16 - rest.length })
        | .exhausted longEntry => return .inl (here.pastSector, longEntry)) := by
  rw [nextEntryBody, readSector]
  cases found : dir.getSector fs device with
  | error fault => rfl
  | ok outcome =>
    rcases outcome with ⟨error | sector, here⟩
    · rfl
    · simp only [Exec.ok_bind]
      rcases reading : fs.read device sector.toUInt64 () with ⟨_ | data, _⟩
      · rfl
      · simp only [Exec.ok_bind, Exec.pure_eq_ok]
        rw [scanFrom_eq_findRecord data _ _ rfl]
        cases findRecord longEntry (data.records.drop here.offset) with
        | error fault => rfl
        | ok found => cases found <;> rfl

theorem nextEntryBody_sector
    (found : dir.readSector fs device = .ok (.ok data, here)) (longEntry : LongName) :
    nextEntryBody fs device (dir, longEntry) = (do
      match ← findRecord longEntry (data.records.drop here.offset) with
      | .endOfFile => return .inr (.error .endOfFile, here)
      | .entry entry rest => return .inr (.ok entry, { here with offset := 16 - rest.length })
      | .exhausted longEntry => return .inl (here.pastSector, longEntry)) := by
  rw [nextEntryBody_eq, found]
  rfl

theorem getSector_again (positive : 0 < fs.sectorsPerCluster)
    {result : Except Error UInt32} (found : dir.getSector fs device = .ok (result, here))
    (offset : Nat) :
    getSector fs device { here with offset := offset } =
      .ok (result, { here with offset := offset }) := by
  rw [getSector] at found
  cases cluster : dir.cluster with
  | none =>
    simp only [cluster, Except.ok.injEq, Prod.mk.injEq] at found
    rw [← found.1, ← found.2, getSector]
    simp only [cluster]
  | some cluster' =>
    simp only [cluster] at found
    split at found
    · rename_i passed
      cases next : fs.nextCluster device cluster' () with
      | error fault => simp [next] at found
      | ok outcome =>
        rcases outcome with ⟨error | newCluster, _⟩
        · simp only [next, Except.ok.injEq, Prod.mk.injEq] at found
          rw [← found.1, ← found.2, getSector]
          simp only [cluster, if_pos passed, next]
        · simp only [next, Except.ok.injEq, Prod.mk.injEq] at found
          rw [← found.1, ← found.2]
          exact getSector_inside _ rfl positive
    · rename_i inside
      simp only [Except.ok.injEq, Prod.mk.injEq] at found
      rw [← found.1, ← found.2]
      exact getSector_inside _ cluster (UInt32.not_le.mp inside)

theorem readSector_again (positive : 0 < fs.sectorsPerCluster)
    {result : Except Error Sector} (found : dir.readSector fs device = .ok (result, here))
    (offset : Nat) :
    readSector fs device { here with offset := offset } =
      .ok (result, { here with offset := offset }) := by
  rcases readSector_eq_ok.mp found with ⟨sought, located, read⟩
  exact readSector_eq_ok.mpr ⟨sought, getSector_again positive located offset, read⟩

/-! ## What lies ahead -/

/-- From `dir` on, the iterator reads these records until it is at `last`. -/
inductive Reads (fs : Filesystem) (device : SectorDevice Unit) :
    Directory → List Record → Directory → Prop
  | start {dir : Directory} : Reads fs device dir [] dir
  | part {dir here : Directory} {data : Sector} (index : Nat) :
      dir.readSector fs device = .ok (.ok data, here) → here.offset ≤ index → index ≤ 16 →
      Reads fs device dir ((data.records.take index).drop here.offset)
        { here with offset := index }
  | sector {dir here last : Directory} {data : Sector} {records : List Record} :
      dir.readSector fs device = .ok (.ok data, here) →
      Reads fs device here.pastSector records last →
      Reads fs device dir (data.records.drop here.offset ++ records) last

theorem take_drop_append {α : Type} (elements : List α) {low index high : Nat}
    (below : low ≤ index) (above : index ≤ high) :
    (elements.take index).drop low ++ (elements.take high).drop index =
      (elements.take high).drop low := by
  have cut : elements.take index = (elements.take high).take index := by
    rw [List.take_take, Nat.min_eq_left above]
  rw [cut]
  generalize elements.take high = others
  rw [List.drop_take, ← Nat.add_sub_of_le below, ← List.drop_drop,
    Nat.add_sub_cancel_left, List.take_append_drop]

theorem take_append_drop_drop (data : Sector) {low index : Nat} (below : low ≤ index)
    (inside : index ≤ 16) :
    (data.records.take index).drop low ++ data.records.drop index = data.records.drop low := by
  have whole : data.records.take 16 = data.records :=
    List.take_of_length_le (by rw [length_records])
  have joined := take_drop_append data.records below inside
  rwa [whole] at joined

section

variable (positive : 0 < fs.sectorsPerCluster)

include positive

variable {dir : Directory} {others rest skipped : List Record} {longEntry : LongName} {fuel : Nat}

theorem Reads.trans {middle last : Directory} {records : List Record}
    (first : Reads fs device dir records middle) (second : Reads fs device middle others last) :
    Reads fs device dir (records ++ others) last := by
  induction first with
  | start => exact second
  | @part dir here data index found low high =>
    have again := readSector_again positive found index
    cases second with
    | start =>
      rw [List.append_nil]
      exact .part index found low high
    | part further found' low' high' =>
      cases again.symm.trans found'
      rw [take_drop_append data.records low low']
      exact .part further found (Nat.le_trans low low') high'
    | sector found' later =>
      cases again.symm.trans found'
      rw [← List.append_assoc, take_append_drop_drop data low high]
      exact .sector found later
  | sector found _ induction =>
    rw [List.append_assoc]
    exact .sector found (induction second)

omit positive in
theorem Reads.comparable {last other : Directory} {records : List Record}
    (first : Reads fs device dir records last) (second : Reads fs device dir others other) :
    records <+: others ∨ others <+: records := by
  induction first generalizing others with
  | start => exact Or.inl List.nil_prefix
  | @part dir here data index found low high =>
    cases second with
    | start => exact Or.inr List.nil_prefix
    | part further found' low' high' =>
      cases found.symm.trans found'
      rcases Nat.le_total index further with less | less
      · exact Or.inl ⟨_, take_drop_append data.records low less⟩
      · exact Or.inr ⟨_, take_drop_append data.records low' less⟩
    | sector found' later =>
      cases found.symm.trans found'
      rw [← take_append_drop_drop data low high, List.append_assoc]
      exact Or.inl (List.prefix_append _ _)
  | @sector dir here last data records found _ induction =>
    cases second with
    | start => exact Or.inr List.nil_prefix
    | part further found' low' high' =>
      cases found.symm.trans found'
      rw [← take_append_drop_drop data low' high', List.append_assoc]
      exact Or.inr (List.prefix_append _ _)
    | sector found' later =>
      cases found.symm.trans found'
      simp only [List.prefix_append_right_inj]
      exact induction later

theorem Reads.split {last : Directory} {before after : List Record}
    (reads : Reads fs device dir (before ++ after) last) :
    ∃ middle, Reads fs device dir before middle ∧ Reads fs device middle after last := by
  generalize all : before ++ after = records at reads
  induction reads generalizing before with
  | start =>
    rcases List.append_eq_nil_iff.mp all with ⟨rfl, rfl⟩
    exact ⟨_, .start, .start⟩
  | @part dir here data index found low high =>
    have total := congrArg List.length all
    simp only [List.length_append, List.length_drop, List.length_take, length_records] at total
    have above : here.offset + before.length ≤ index := by omega
    have below := Nat.le_add_right here.offset before.length
    have again := readSector_again positive found (here.offset + before.length)
    have joined := (take_drop_append data.records below above).trans all.symm
    have cut := List.append_inj joined (by simp; omega)
    have first := Reads.part _ found below (Nat.le_trans above high)
    have second := Reads.part index again above high
    rw [cut.1] at first
    rw [cut.2] at second
    exact ⟨_, first, second⟩
  | @sector dir here last data records found later induction =>
    rcases List.append_eq_append_iff.mp all with ⟨more, whole, rfl⟩ | ⟨more, rfl, rest⟩
    · by_cases nothing : before = []
      · subst nothing
        exact ⟨dir, .start, all ▸ .sector found later⟩
      · have total := congrArg List.length whole
        have some := List.length_pos_iff.mpr nothing
        rw [List.length_drop, length_records, List.length_append] at total
        have above : here.offset + before.length ≤ 16 := by omega
        have below := Nat.le_add_right here.offset before.length
        have again := readSector_again positive found (here.offset + before.length)
        have joined := (take_append_drop_drop data below above).trans whole
        have cut := List.append_inj joined (by simp; omega)
        have first := Reads.part _ found below above
        have second := Reads.sector again later
        rw [cut.1] at first
        rw [cut.2] at second
        exact ⟨_, first, second⟩
    · rcases induction rest.symm with ⟨middle, first, second⟩
      exact ⟨middle, .sector found first, second⟩

/-! ## Calls -/

def Ends (fs : Filesystem) (device : SectorDevice Unit) (reached : Directory)
    (name : LongName) (last : Directory) : Exec Found → Prop
  | .error fault => nextEntryBody fs device (reached, name) = .error fault
  | .ok .endOfFile => ∃ stop behind,
      nextEntryBody fs device (reached, name) = .ok (.inr (.error .endOfFile, stop)) ∧
        Reads fs device stop behind last ∧ findRecord emptyName behind = .ok .endOfFile
  | .ok (.entry entry rest) => ∃ next,
      nextEntryBody fs device (reached, name) = .ok (.inr (.ok entry, next)) ∧
        Reads fs device next rest last
  | .ok (.exhausted behind) => reached = last ∧ name = behind ∨ ∃ data here offset,
      reached.readSector fs device = .ok (.ok data, here) ∧ last = { here with offset := offset }

/-- A call finds what a pass over the records finds. -/
theorem Reads.ends {last : Directory} {records : List Record}
    (reads : Reads fs device dir records last) (longEntry : LongName) :
    ∃ reached name,
      Loop.Visits (nextEntryBody fs device) (dir, longEntry) (reached, name) ∧
        Ends fs device reached name last (findRecord longEntry records) := by
  induction reads generalizing longEntry with
  | start => exact ⟨_, _, .start, Or.inl ⟨rfl, rfl⟩⟩
  | @part dir here data index found low high =>
    refine ⟨dir, longEntry, .start, ?_⟩
    have body := nextEntryBody_sector found longEntry
    rw [← take_append_drop_drop data low high, findRecord_append] at body
    cases scanned : findRecord longEntry ((data.records.take index).drop here.offset) with
    | error fault => rwa [scanned] at body
    | ok outcome =>
      rw [scanned] at body
      cases outcome with
      | endOfFile =>
        refine ⟨here, _, body, ?_, findRecord_endOfFile scanned _⟩
        exact .part index (readSector_again positive found here.offset) low high
      | entry entry rest =>
        have inside := (findRecord_suffix scanned).trans (List.drop_suffix _ _)
        have length := inside.length_le
        have cut := List.suffix_iff_eq_drop.mp inside
        have offset : 16 - (rest ++ data.records.drop index).length = index - rest.length := by
          rw [List.length_append, List.length_drop, length_records]
          omega
        rw [List.length_take, length_records, Nat.min_eq_left high] at cut length
        have again := readSector_again positive found (index - rest.length)
        refine ⟨{ here with offset := index - rest.length }, ?_, ?_⟩
        · rw [body, ← offset]
          rfl
        · have reads := Reads.part index again (Nat.sub_le _ _) high
          rwa [← cut] at reads
      | exhausted behind => exact Or.inr ⟨data, here, index, found, rfl⟩
  | @sector dir here last data records found later induction =>
    have body := nextEntryBody_sector found longEntry
    rw [findRecord_append]
    cases scanned : findRecord longEntry (data.records.drop here.offset) with
    | error fault =>
      rw [scanned] at body
      exact ⟨dir, longEntry, .start, body⟩
    | ok outcome =>
      rw [scanned] at body
      cases outcome with
      | endOfFile =>
        refine ⟨dir, longEntry, .start, here, data.records.drop here.offset ++ records, body,
          ?_, ?_⟩
        · exact .sector (readSector_again positive found here.offset) later
        · rw [findRecord_append, findRecord_endOfFile scanned]
          rfl
      | entry entry rest =>
        have inside := (findRecord_suffix scanned).trans (List.drop_suffix _ _)
        have cut := List.suffix_iff_eq_drop.mp inside
        rw [length_records] at cut
        have again := readSector_again positive found (16 - rest.length)
        have reads := Reads.sector again later
        rw [← cut] at reads
        exact ⟨dir, longEntry, .start, _, body, reads⟩
      | exhausted behind =>
        rcases induction behind with ⟨reached, name, visits, ends⟩
        exact ⟨reached, name, visits.after body, ends⟩

/-! ## Where calls have been -/

omit positive in
theorem nextEntryBody_cases
    {progress : Directory × LongName ⊕ Except Error DirectoryEntry × Directory}
    (returned : nextEntryBody fs device (dir, longEntry) = .ok progress) :
    ∃ result here, dir.readSector fs device = .ok (result, here) ∧
      ((∃ error, progress = .inr (.error error, here) ∧
          (result = .error error ∨ ∃ data, result = .ok data ∧ error = .endOfFile ∧
            findRecord longEntry (data.records.drop here.offset) = .ok .endOfFile)) ∨
        ∃ data, result = .ok data ∧
          ((∃ entry rest, progress = .inr (.ok entry, { here with offset := 16 - rest.length }) ∧
              findRecord longEntry (data.records.drop here.offset) = .ok (.entry entry rest)) ∨
            ∃ behind, progress = .inl (here.pastSector, behind) ∧
              findRecord longEntry (data.records.drop here.offset) = .ok (.exhausted behind))) := by
  rw [nextEntryBody_eq] at returned
  cases found : dir.readSector fs device with
  | error fault => simp [found] at returned
  | ok outcome =>
    rcases outcome with ⟨error | data, here⟩
    · simp only [found, Exec.ok_bind, Exec.pure_eq_ok, Except.ok.injEq] at returned
      exact ⟨_, here, rfl, Or.inl ⟨error, returned.symm, Or.inl rfl⟩⟩
    · refine ⟨_, here, rfl, ?_⟩
      simp only [found, Exec.ok_bind] at returned
      cases scanned : findRecord longEntry (data.records.drop here.offset) with
      | error fault => simp [scanned] at returned
      | ok outcome =>
        simp only [scanned, Exec.ok_bind] at returned
        cases outcome with
        | endOfFile =>
          exact Or.inl ⟨_, (Except.ok.inj returned).symm, Or.inr ⟨data, rfl, rfl, scanned⟩⟩
        | entry entry rest =>
          exact Or.inr ⟨data, rfl, Or.inl ⟨entry, rest, (Except.ok.inj returned).symm, scanned⟩⟩
        | exhausted behind =>
          exact Or.inr ⟨data, rfl, Or.inr ⟨behind, (Except.ok.inj returned).symm, scanned⟩⟩

omit positive in
theorem nextEntryBody_goes_on {next : Directory} {name : LongName}
    (went : nextEntryBody fs device (dir, longEntry) = .ok (.inl (next, name))) :
    ∃ skipped, Reads fs device dir skipped next ∧ (∀ record ∈ skipped, record.Skipped) ∧
      name = nameBehind longEntry skipped := by
  rcases nextEntryBody_cases went with
    ⟨_, here, found, ⟨_, ⟨⟩, _⟩ | ⟨data, rfl, ⟨_, _, ⟨⟩, _⟩ | ⟨behind, same, scanned⟩⟩⟩
  rw [Sum.inl.injEq, Prod.mk.injEq] at same
  rcases findRecord_eq_exhausted scanned with ⟨skips, named⟩
  have reads := Reads.sector found Reads.start
  rw [List.append_nil, ← same.1] at reads
  exact ⟨_, reads, skips, same.2.trans named⟩

omit positive in
theorem nextEntryBody_entry {next : Directory} {entry : DirectoryEntry}
    (returned : nextEntryBody fs device (dir, longEntry) = .ok (.inr (.ok entry, next))) :
    ∃ skipped record, Reads fs device dir (skipped ++ [record]) next ∧
      (∀ other ∈ skipped, other.Skipped) ∧ record.IsEntry ∧
      entry = record.entry (nameBehind longEntry skipped) := by
  rcases nextEntryBody_cases returned with
    ⟨_, here, found, ⟨_, ⟨⟩, _⟩ | ⟨data, rfl, ⟨entry', rest, same, scanned⟩ | ⟨_, ⟨⟩, _⟩⟩⟩
  simp only [Sum.inr.injEq, Prod.mk.injEq, Except.ok.injEq] at same
  rcases findRecord_eq_entry scanned with ⟨skipped, record, cut, skips, isEntry, named⟩
  have total := congrArg List.length cut
  simp only [List.length_drop, length_records, List.length_append, List.length_cons] at total
  have low : here.offset ≤ 16 - rest.length := by omega
  have reads := Reads.part (16 - rest.length) found low (Nat.sub_le _ _)
  have read : (data.records.take (16 - rest.length)).drop here.offset = skipped ++ [record] := by
    rw [List.drop_take, cut, List.append_cons]
    apply List.take_left'
    rw [List.length_append, List.length_singleton]
    omega
  rw [read, ← same.2] at reads
  exact ⟨skipped, record, reads, skips, isEntry, same.1.trans named⟩

theorem visits_reads {reached : Directory} {name : LongName}
    (visits : Loop.Visits (nextEntryBody fs device) (dir, longEntry) (reached, name)) :
    ∃ skipped, Reads fs device dir skipped reached ∧ (∀ record ∈ skipped, record.Skipped) ∧
      name = nameBehind longEntry skipped := by
  generalize state : (reached, name) = final at visits
  induction visits generalizing reached name with
  | start =>
    cases state
    exact ⟨[], .start, by simp, rfl⟩
  | @next middle _ visits stepped induction =>
    subst state
    rcases induction rfl with ⟨before, first, skips, named⟩
    rcases nextEntryBody_goes_on stepped with ⟨after, second, skips', named'⟩
    refine ⟨before ++ after, first.trans positive second, ?_, ?_⟩
    · exact List.forall_mem_append.mpr ⟨skips, skips'⟩
    · rw [nameBehind_append, ← named, named']

theorem nextEntry_entry {next : Directory} {entry : DirectoryEntry}
    (returned : dir.nextEntry fs device fuel = .ok (.ok entry, next)) :
    ∃ skipped record, Reads fs device dir (skipped ++ [record]) next ∧
      (∀ other ∈ skipped, other.Skipped) ∧ record.IsEntry ∧
      entry = record.entry (nameBehind emptyName skipped) := by
  rcases Loop.visits_of_run returned with ⟨⟨reached, name⟩, visits, last⟩
  rcases visits_reads positive visits with ⟨before, first, skips, named⟩
  rcases nextEntryBody_entry last with ⟨after, record, second, skips', isEntry, named'⟩
  refine ⟨before ++ after, record, ?_, List.forall_mem_append.mpr ⟨skips, skips'⟩, isEntry, ?_⟩
  · rw [List.append_assoc]
    exact first.trans positive second
  · rw [nameBehind_append, named', named]
    rfl

theorem Reads.nextEntry {last : Directory} {record : Record}
    (reads : Reads fs device dir (skipped ++ record :: rest) last)
    (skips : ∀ other ∈ skipped, other.Skipped) (isEntry : record.IsEntry) :
    ∃ enough next, (∀ fuel, enough ≤ fuel → dir.nextEntry fs device fuel =
        .ok (.ok (record.entry (nameBehind emptyName skipped)), next)) ∧
      Reads fs device next rest last := by
  rcases reads.ends positive emptyName with ⟨reached, name, visits, ends⟩
  rw [findRecord_skipped skips, findRecord, if_neg isEntry.1, if_pos isEntry] at ends
  rcases ends with ⟨next, body, later⟩
  rcases visits.ends (.ok (.ok _, next)) body with ⟨enough, returns⟩
  exact ⟨enough, next, returns, later⟩

/-! ## Calls one after another -/

theorem nextEntryBody_error {stop : Directory} {error : Error}
    (returned : nextEntryBody fs device (dir, longEntry) = .ok (.inr (.error error, stop))) :
    (∃ result, dir.readSector fs device = .ok (result, stop)) ∧
      ∀ name, nextEntryBody fs device (stop, name) = .ok (.inr (.error error, stop)) := by
  rcases nextEntryBody_cases returned with
    ⟨result, here, found, ⟨_, same, why⟩ | ⟨_, _, ⟨_, _, ⟨⟩, _⟩ | ⟨_, ⟨⟩, _⟩⟩⟩
  cases same
  have again := readSector_again positive found stop.offset
  refine ⟨⟨result, found⟩, fun name => ?_⟩
  rcases why with rfl | ⟨data, rfl, rfl, scanned⟩
  · rw [nextEntryBody_eq, again]
    rfl
  · rw [nextEntryBody_sector again, findRecord_endOfFile scanned]
    rfl

section

variable {last : Directory} {record : Record}
  (reads : Reads fs device dir (skipped ++ record :: rest) last)
  (skips : ∀ other ∈ skipped, other.Skipped)

include reads skips

theorem Reads.nextEntry_endOfFile (zero : record.first = 0) :
    ∃ enough stop,
      (∀ fuel, enough ≤ fuel → dir.nextEntry fs device fuel = .ok (.error .endOfFile, stop)) ∧
      ∀ name, nextEntryBody fs device (stop, name) = .ok (.inr (.error .endOfFile, stop)) := by
  rcases reads.ends positive emptyName with ⟨reached, name, visits, ends⟩
  rw [findRecord_skipped skips, findRecord, if_pos zero] at ends
  rcases ends with ⟨stop, behind, body, _⟩
  rcases visits.ends (.ok (.error .endOfFile, stop)) body with ⟨enough, returns⟩
  exact ⟨enough, stop, returns, (nextEntryBody_error positive body).2⟩

theorem Reads.nextEntry_panics (invalid : ¬record.InSequence) :
    ∃ enough, ∀ fuel, enough ≤ fuel → dir.nextEntry fs device fuel = .error .panicked := by
  have nonzero : record.first ≠ 0 := fun zero => invalid fun _ nonzero => absurd zero nonzero
  have notEntry : ¬record.IsEntry := fun isEntry => invalid isEntry.inSequence
  rcases reads.ends positive emptyName with ⟨reached, name, visits, ends⟩
  rw [findRecord_skipped skips, findRecord, if_neg nonzero, if_neg notEntry, if_neg invalid] at ends
  exact visits.ends (.error .panicked) ends

end

section

variable {last : Directory} (reads : Reads fs device dir skipped last)
  (skips : ∀ record ∈ skipped, record.Skipped)

include reads skips

theorem Reads.visits :
    ∃ reached name,
      Loop.Visits (nextEntryBody fs device) (dir, emptyName) (reached, name) ∧
      (reached = last ∨ ∃ data here offset,
        reached.readSector fs device = .ok (.ok data, here) ∧
        last = { here with offset := offset }) := by
  rcases reads.ends positive emptyName with ⟨reached, name, visits, ends⟩
  rw [← List.append_nil skipped, findRecord_skipped skips, findRecord] at ends
  rcases ends with ⟨same, _⟩ | inside
  · exact ⟨reached, name, visits, Or.inl same⟩
  · exact ⟨reached, name, visits, Or.inr inside⟩

theorem Reads.nextEntry_unreadable (outcome : Exec (Error × Directory))
    (found : last.readSector fs device = outcome.map fun failed => (.error failed.1, failed.2)) :
    ∃ enough, ∀ fuel, enough ≤ fuel →
      dir.nextEntry fs device fuel = outcome.map fun failed => (.error failed.1, failed.2) := by
  rcases reads.visits positive skips with
    ⟨reached, name, visits, rfl | ⟨data, here, offset, read, rfl⟩⟩
  · apply visits.ends
    rw [nextEntryBody_eq, found]
    cases outcome <;> rfl
  · rw [readSector_again positive read offset] at found
    cases outcome <;> cases found

end

/-- What is passable is called up: some calls lead to before the records that are left
to be gone over. -/
theorem Reads.calls {start middle : Directory} {records : List Record}
    (reads : Reads fs device start records middle)
    (passable : ∀ record ∈ records, record.Passable) :
    ∃ before skipped dir, records = before ++ skipped ∧ (∀ record ∈ skipped, record.Skipped) ∧
      UpToEntry before ∧ Reads fs device dir skipped middle ∧
      ∃ enough calls, ∀ fuel, enough ≤ fuel →
        ∃ responses, start.nextEntries fs device fuel calls = .ok (responses, dir) := by
  induction records using List.reverseRecOn generalizing middle with
  | nil => exact ⟨[], [], start, rfl, by simp, Or.inl rfl, reads, 0, 0, fun _ _ => ⟨[], rfl⟩⟩
  | append_singleton records record induction =>
    rcases List.forall_mem_append.mp passable with ⟨passable, last⟩
    rcases reads.split positive with ⟨between, first, second⟩
    rcases induction first passable with
      ⟨before, skipped, dir, rfl, skips, complete, toward, enough, calls, called⟩
    have onward := toward.trans positive second
    rcases (last record List.mem_cons_self).skipped_or_entry with skip | isEntry
    · refine ⟨before, skipped ++ [record], dir, List.append_assoc _ _ _, ?_, complete, onward,
        enough, calls, called⟩
      exact List.forall_mem_append.mpr ⟨skips, by simpa using skip⟩
    · rcases onward.nextEntry positive skips isEntry with ⟨enough', next, returns, later⟩
      refine ⟨before ++ skipped ++ [record], [], next, by simp, by simp,
        Or.inr ⟨before ++ skipped, record, rfl, isEntry⟩, later, max enough enough',
        calls + 1, ?_⟩
      intro fuel many
      rcases called fuel (Nat.le_trans (Nat.le_max_left _ _) many) with ⟨responses, ran⟩
      have once := returns fuel (Nat.le_trans (Nat.le_max_right _ _) many)
      have single : Machine.run (fun dir (_ : Unit) => dir.nextEntry fs device fuel) dir [()] =
          .ok ([.ok (record.entry (nameBehind emptyName skipped))], next) := by
        simp only [Machine.run, once]
      refine ⟨responses ++ [.ok (record.entry (nameBehind emptyName skipped))], ?_⟩
      rw [nextEntries, List.replicate_succ']
      exact Machine.run_append ran single

/-- Where calls have led from `start`: behind passable records, or to an error that is
returned from there on. -/
def Standing (fs : Filesystem) (device : SectorDevice Unit) (start dir : Directory) : Prop :=
  (∃ before, Reads fs device start before dir ∧ (∀ record ∈ before, record.Passable) ∧
    UpToEntry before) ∨
  ∃ before reached result error, Reads fs device start before reached ∧
    (∀ record ∈ before, record.Passable) ∧
    reached.readSector fs device = .ok (result, dir) ∧
    ∀ name, nextEntryBody fs device (dir, name) = .ok (.inr (.error error, dir))

theorem Standing.nextEntry {start next : Directory}
    {result : Except Error DirectoryEntry} (standing : Standing fs device start dir)
    (returned : dir.nextEntry fs device fuel = .ok (result, next)) :
    Standing fs device start next := by
  rcases standing with ⟨before, reads, passable, _⟩ | ⟨before, reached, outcome, error, stays⟩
  · cases result with
    | ok entry =>
      rcases nextEntry_entry positive returned with ⟨skipped, record, further, skips, isEntry, _⟩
      refine Or.inl ⟨before ++ (skipped ++ [record]), reads.trans positive further, ?_, ?_⟩
      · simp only [List.forall_mem_append, List.forall_mem_singleton]
        exact ⟨passable, fun other member => (skips other member).passable, isEntry.passable⟩
      · exact Or.inr ⟨before ++ skipped, record, by rw [List.append_assoc], isEntry⟩
    | error error =>
      rcases Loop.visits_of_run returned with ⟨⟨reached, name⟩, visits, last⟩
      rcases visits_reads positive visits with ⟨skipped, further, skips, _⟩
      rcases nextEntryBody_error positive last with ⟨⟨outcome, found⟩, stays⟩
      refine Or.inr ⟨before ++ skipped, reached, outcome, error, reads.trans positive further, ?_,
        found, stays⟩
      exact List.forall_mem_append.mpr ⟨passable, fun other member =>
        (skips other member).passable⟩
  · cases fuel with
    | zero => cases returned
    | succ fuel =>
      rw [Directory.nextEntry, Loop.run, stays.2.2.2] at returned
      cases returned
      exact Or.inr ⟨before, reached, outcome, error, stays⟩

theorem nextEntries_standing {start : Directory} {calls : Nat}
    {responses : List (Except Error DirectoryEntry)}
    (returned : start.nextEntries fs device fuel calls = .ok (responses, dir)) :
    Standing fs device start dir := by
  apply Machine.run_invariant (Standing fs device start) _
    (Or.inl ⟨[], .start, by simp, Or.inl rfl⟩) (Machine.everyStep_of_forall (fun _ _ => trivial) _)
    returned
  intro state _ response next standing _ stepped
  exact standing.nextEntry positive stepped

end

/-! ## Volumes with one sector over and over -/

theorem readSector_uniform {other : Sector}
    (found : dir.readSector fs (.reliable fun _ => data) = .ok (.ok other, here)) :
    other = data := by
  rcases readSector_eq_ok.mp found with ⟨error | sector, _, read⟩
  · cases read
  · change sectorAt fs (.reliable fun _ => data) sector = _ at read
    rw [sectorAt, Filesystem.read] at read
    split_ifs at read
    cases read
    rfl

theorem reads_uniform {last : Directory}
    {records : List Record} (reads : Reads fs (.reliable fun _ => data) dir records last) :
    ∀ record ∈ records, record ∈ data.records := by
  induction reads with
  | start => simp
  | part index found low high =>
    rw [readSector_uniform found]
    exact fun record member => List.mem_of_mem_take (List.mem_of_mem_drop member)
  | sector found _ induction =>
    rw [readSector_uniform found, List.forall_mem_append]
    exact ⟨fun record member => List.mem_of_mem_drop member, induction⟩

end Directory

end HypervisorFirmware.Fat
