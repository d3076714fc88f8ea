import Mathlib.Data.Bool.AllAny
import HypervisorFirmware.Fat.Directory
import HypervisorFirmware.Foundation.Chain

/-! # Iteration is one pass over the records

Repeated calls of `next_entry` deliver what a single pass over all records of a
directory finds, wherever sectors and clusters end. -/

namespace HypervisorFirmware.Fat

/-- The entries of a directory, and what an iterator meets behind them: an error or
a fault. -/
structure Listing where
  entries : List DirectoryEntry
  ending : Exec Error

def emptyName : LongName := Vector.replicate efiPathStringLength 0

/-- A single pass over records, which are followed by `ending`. A record that begins
with zero is the last one, records that begin with 0xe5 are unused, parts of a long
name are collected for the next entry. -/
def scanRecords (ending : Exec Error) : LongName → List Record → Listing
  | _, [] => ⟨[], ending⟩
  | longEntry, record :: rest =>
    if record.first = 0 then ⟨[], .ok .endOfFile⟩
    else if record.first = 0xe5 then scanRecords ending longEntry rest
    else if record.flags = 0x0f then
      if record.sequence = 0 ∨ 20 < record.sequence then ⟨[], .error .panicked⟩
      else scanRecords ending (record.copyLongName longEntry) rest
    else
      let others := scanRecords ending emptyName rest
      ⟨record.entry longEntry :: others.entries, others.ending⟩

def Sector.records (data : Sector) : List Record := (List.finRange 16).map data.record

variable {ending : Exec Error}

theorem scanRecords_of_no_entries {records : List Record} {longEntry : LongName} (other : LongName)
    (nothing : (scanRecords ending longEntry records).entries = []) :
    scanRecords ending other records = scanRecords ending longEntry records := by
  induction records generalizing longEntry other with
  | nil => rfl
  | cons record rest induction =>
    rw [scanRecords] at nothing ⊢
    rw [scanRecords]
    split_ifs at nothing ⊢ with last unused part invalid
    · rfl
    · exact induction other nothing
    · rfl
    · exact induction _ nothing

/-! ## One sector -/

def SectorScanned (ending : Exec Error) (data : Sector) (behind : List Record)
    (listing : Listing) : Exec Scanned → Prop
  | .error fault => listing = ⟨[], .error fault⟩
  | .ok .endOfFile => listing = ⟨[], .ok .endOfFile⟩
  | .ok (.entry entry offset) =>
    offset ≤ 16 ∧
      let others := scanRecords ending emptyName (data.records.drop offset ++ behind)
      listing = ⟨entry :: others.entries, others.ending⟩
  | .ok (.exhausted longEntry) => listing = scanRecords ending longEntry behind

theorem drop_records (data : Sector) {index : Nat} (inside : index < 16) :
    data.records.drop index = data.record ⟨index, inside⟩ :: data.records.drop (index + 1) := by
  rw [Sector.records, ← List.map_drop, Table.drop_finRange inside, List.map_cons, List.map_drop]

theorem scanFrom_records (ending : Exec Error) (data : Sector) (behind : List Record)
    (remaining index : Nat) (total : index + remaining = 16) (longEntry : LongName) :
    SectorScanned ending data behind
      (scanRecords ending longEntry (data.records.drop index ++ behind))
      (Table.scanFrom (visitRecord data) .exhausted remaining index longEntry) := by
  induction remaining generalizing index longEntry with
  | zero =>
    have finished : data.records.drop index = [] := by
      apply List.drop_eq_nil_of_le
      simp [Sector.records]
      omega
    rw [finished]
    rfl
  | succ remaining induction =>
    have inside : index < 16 := by omega
    rw [drop_records data inside, List.cons_append, scanRecords, Table.scanFrom,
      dif_pos inside, visitRecord]
    generalize data.record ⟨index, inside⟩ = record
    by_cases last : record.first = 0
    · simp only [if_pos last]
      rfl
    · by_cases unused : record.first = 0xe5
      · simp only [if_neg last, if_pos unused]
        exact induction (index + 1) (by omega) longEntry
      · by_cases part : record.flags = 0x0f
        · by_cases invalid : record.sequence = 0 ∨ 20 < record.sequence
          · simp only [if_neg last, if_neg unused, if_pos part, if_pos invalid]
            rfl
          · simp only [if_neg last, if_neg unused, if_pos part, if_neg invalid]
            exact induction (index + 1) (by omega) _
        · simp only [if_neg last, if_neg unused, if_neg part]
          exact ⟨inside, rfl⟩

/-! ## All sectors -/

inductive SectorsFrom (fs : Filesystem) (device : SectorDevice Unit) :
    UInt32 → UInt32 → List Sector → Exec Error → Prop
  | ended {cluster sector : UInt32} {error : Error} : fs.sectorsPerCluster ≤ sector →
      fs.nextCluster device cluster () = .ok (.error error, ()) →
      SectorsFrom fs device cluster sector [] (.ok error)
  | faulted {cluster sector : UInt32} {fault : Fault} : fs.sectorsPerCluster ≤ sector →
      fs.nextCluster device cluster () = .error fault →
      SectorsFrom fs device cluster sector [] (.error fault)
  | following {cluster sector next : UInt32} {sectors : List Sector} {ending : Exec Error} :
      fs.sectorsPerCluster ≤ sector →
      fs.nextCluster device cluster () = .ok (.ok next, ()) →
      SectorsFrom fs device next 0 sectors ending →
      SectorsFrom fs device cluster sector sectors ending
  | unreadable {cluster sector : UInt32} : sector < fs.sectorsPerCluster →
      fs.read device (sector + fs.firstSectorOfCluster cluster).toUInt64 () = (none, ()) →
      SectorsFrom fs device cluster sector [] (.ok .blockError)
  | readable {cluster sector : UInt32} {data : Sector} {rest : List Sector}
      {ending : Exec Error} : sector < fs.sectorsPerCluster →
      fs.read device (sector + fs.firstSectorOfCluster cluster).toUInt64 () = (some data, ()) →
      SectorsFrom fs device cluster (sector + 1) rest ending →
      SectorsFrom fs device cluster sector (data :: rest) ending

namespace Directory

def Lists (fs : Filesystem) (device : SectorDevice Unit) (fuel : Nat) (dir : Directory)
    (listing : Listing) : Prop :=
  ∃ cluster sectors ending, dir.cluster = some cluster ∧
    SectorsFrom fs device cluster dir.sector sectors ending ∧ sectors.length < fuel ∧
    dir.offset ≤ 16 ∧ (fs.sectorsPerCluster ≤ dir.sector → dir.offset = 0) ∧
    listing = scanRecords ending emptyName ((sectors.flatMap Sector.records).drop dir.offset)

/-- A call delivers the first entry of a listing and stands before the others. At
the end of the listing it stays where it is. -/
def Delivers (fs : Filesystem) (device : SectorDevice Unit) (fuel : Nat) (listing : Listing)
    (result : Exec (Except Error DirectoryEntry × Directory)) : Prop :=
  match listing with
  | ⟨entry :: rest, ending⟩ =>
    ∃ next, result = .ok (.ok entry, next) ∧ next.Lists fs device fuel ⟨rest, ending⟩
  | ⟨[], .ok error⟩ =>
    ∃ next, result = .ok (.error error, next) ∧ next.Lists fs device fuel ⟨[], .ok error⟩
  | ⟨[], .error fault⟩ => result = .error fault

variable {fs : Filesystem} {device : SectorDevice Unit}

theorem getSector_inside (dir : Directory) {cluster : UInt32} (here : dir.cluster = some cluster)
    (inside : dir.sector < fs.sectorsPerCluster) :
    dir.getSector fs device = .ok (.ok (dir.sector + fs.firstSectorOfCluster cluster), dir) := by
  rw [getSector, here]
  exact if_neg (UInt32.not_le.mpr inside)

theorem getSector_following {dir : Directory} {cluster next : UInt32}
    (here : dir.cluster = some cluster) (passed : fs.sectorsPerCluster ≤ dir.sector)
    (following : fs.nextCluster device cluster () = .ok (.ok next, ()))
    (positive : 0 < fs.sectorsPerCluster) :
    dir.getSector fs device =
      getSector fs device { dir with cluster := some next, sector := 0, offset := 0 } := by
  rw [getSector_inside { dir with cluster := some next, sector := 0, offset := 0 } rfl positive,
    getSector, here]
  simp only [ge_iff_le, if_pos passed, following]

theorem drop_records (data : Sector) (rest : List Sector) {offset : Nat} (inSector : offset ≤ 16) :
    ((data :: rest).flatMap Sector.records).drop offset =
      data.records.drop offset ++ rest.flatMap Sector.records := by
  rw [List.flatMap_cons, List.drop_append_of_le_length]
  simpa [Sector.records] using inSector

theorem loop_delivers (positive : 0 < fs.sectorsPerCluster) {cluster sector : UInt32}
    {sectors : List Sector} {ending : Exec Error}
    (walk : SectorsFrom fs device cluster sector sectors ending) (limit fuel : Nat)
    (dir : Directory) (longEntry : LongName) (here : dir.cluster = some cluster)
    (sectorAt : dir.sector = sector) (enough : sectors.length < fuel) (within : fuel ≤ limit)
    (inSector : dir.offset ≤ 16) (aligned : fs.sectorsPerCluster ≤ dir.sector → dir.offset = 0) :
    Delivers fs device limit
      (scanRecords ending longEntry ((sectors.flatMap Sector.records).drop dir.offset))
      (Loop.run (nextEntryBody fs device) fuel (dir, longEntry)) := by
  induction walk generalizing fuel dir longEntry with
  | ended passed failed =>
    obtain ⟨fuel, rfl⟩ := Nat.exists_eq_succ_of_ne_zero (Nat.ne_zero_of_lt enough)
    subst sectorAt
    rw [List.flatMap_nil, List.drop_nil]
    refine ⟨dir, ?_, _, [], _, here, .ended passed failed, Nat.lt_of_lt_of_le enough within,
      inSector, aligned, ?_⟩
    · simp only [Loop.run, nextEntryBody, getSector, here, ge_iff_le, if_pos passed, failed,
        Exec.ok_bind, Exec.pure_eq_ok]
    · simp [scanRecords]
  | faulted passed failed =>
    obtain ⟨fuel, rfl⟩ := Nat.exists_eq_succ_of_ne_zero (Nat.ne_zero_of_lt enough)
    subst sectorAt
    simp only [Loop.run, nextEntryBody, getSector, here, ge_iff_le, if_pos passed, failed,
      Exec.error_bind, List.flatMap_nil, List.drop_nil]
    rfl
  | following passed following _ induction =>
    subst sectorAt
    obtain ⟨fuel, rfl⟩ := Nat.exists_eq_succ_of_ne_zero (Nat.ne_zero_of_lt enough)
    have moved := induction (fuel + 1) { dir with cluster := some _, sector := 0, offset := 0 }
      longEntry rfl rfl enough within (Nat.zero_le _) (fun _ => rfl)
    rw [aligned passed]
    rw [Loop.run, nextEntryBody, ← getSector_following here passed following positive] at moved
    rw [Loop.run, nextEntryBody]
    exact moved
  | unreadable inside failed =>
    obtain ⟨fuel, rfl⟩ := Nat.exists_eq_succ_of_ne_zero (Nat.ne_zero_of_lt enough)
    subst sectorAt
    rw [List.flatMap_nil, List.drop_nil]
    refine ⟨dir, ?_, _, [], _, here, .unreadable inside failed,
      Nat.lt_of_lt_of_le enough within, inSector, aligned, ?_⟩
    · simp only [Loop.run, nextEntryBody, getSector_inside dir here inside, failed, Exec.ok_bind,
        Exec.pure_eq_ok]
    · simp [scanRecords]
  | @readable cluster sector data rest ending inside succeeded walk induction =>
    obtain ⟨fuel, rfl⟩ := Nat.exists_eq_succ_of_ne_zero (Nat.ne_zero_of_lt enough)
    subst sectorAt
    have split := drop_records data rest inSector
    have scanned := scanFrom_records ending data (rest.flatMap Sector.records)
      (16 - dir.offset) dir.offset (by omega) longEntry
    rw [split]
    simp only [Loop.run, nextEntryBody, getSector_inside dir here inside, succeeded, Exec.ok_bind]
    cases outcome : Table.scanFrom (visitRecord data) Scanned.exhausted (16 - dir.offset)
        dir.offset longEntry with
    | error fault =>
      rw [outcome] at scanned
      rw [scanned]
      rfl
    | ok result =>
      rw [outcome] at scanned
      cases result with
      | endOfFile =>
        have nothing := scanRecords_of_no_entries emptyName
          (show (scanRecords ending longEntry _).entries = [] by rw [scanned])
        rw [scanned] at nothing ⊢
        refine ⟨dir, rfl, cluster, data :: rest, ending, here,
          .readable inside succeeded walk, Nat.lt_of_lt_of_le enough within, inSector,
          aligned, ?_⟩
        rw [split, nothing]
      | entry entry offset =>
        rw [scanned.2]
        refine ⟨{ dir with offset := offset }, rfl, cluster, data :: rest, ending, here,
          .readable inside succeeded walk, Nat.lt_of_lt_of_le enough within, scanned.1,
          fun passed => absurd inside (UInt32.not_lt.mpr passed), ?_⟩
        rw [drop_records data rest scanned.1]
      | exhausted longEntry =>
        rw [scanned]
        exact induction fuel { dir with sector := dir.sector + 1, offset := 0 } longEntry
          here rfl (Nat.lt_of_succ_lt_succ enough) (Nat.le_of_succ_le within)
          (Nat.zero_le _) (fun _ => rfl)

theorem Lists.nextEntry {fuel : Nat} {dir : Directory} {listing : Listing}
    (lists : dir.Lists fs device fuel listing) (positive : 0 < fs.sectorsPerCluster) :
    Delivers fs device fuel listing (dir.nextEntry fs device fuel) := by
  rcases lists with ⟨cluster, sectors, ending, here, walk, enough, inSector, aligned, rfl⟩
  exact loop_delivers positive walk fuel fuel dir emptyName here rfl enough (Nat.le_refl _)
    inSector aligned

end Directory

/-! ## Finite directories -/

section

variable (fs : Filesystem) (content : UInt64 → Sector)

def directorySectors (cluster : UInt32) : List Sector :=
  (List.range fs.sectorsPerCluster.toNat).map fun index =>
    content (fs.start + (UInt32.ofNat index + fs.firstSectorOfCluster cluster).toUInt64)

def directoryRecords (clusters : List UInt32) : List Record :=
  (clusters.flatMap (directorySectors fs content)).flatMap Sector.records

/-- A chain of clusters that comes to an end, all of them on the volume. -/
structure FiniteDirectory (start : UInt32) (clusters : List UInt32) : Prop where
  chain : Chain (fs.successor content) (some start) clusters
  ends : ∀ cluster ∈ clusters, fs.successor content cluster = none →
    fs.nextCluster (.reliable content) cluster () = .ok (.error .endOfFile, ())
  readable : ∀ cluster ∈ clusters, ∀ index < fs.sectorsPerCluster.toNat,
    fs.start + (UInt32.ofNat index + fs.firstSectorOfCluster cluster).toUInt64 ≤ fs.last

end

variable {fs : Filesystem} {content : UInt64 → Sector}

theorem FiniteDirectory.single {cluster : UInt32}
    (last : fs.nextCluster (.reliable content) cluster () = .ok (.error .endOfFile, ()))
    (readable : ∀ index < fs.sectorsPerCluster.toNat,
      fs.start + (UInt32.ofNat index + fs.firstSectorOfCluster cluster).toUInt64 ≤ fs.last) :
    FiniteDirectory fs content cluster [cluster] := by
  have ended : fs.successor content cluster = none := by rw [Filesystem.successor, last]
  refine ⟨.cons (ended ▸ .nil), ?_, ?_⟩
  · intro other member _
    rw [List.mem_singleton.mp member]
    exact last
  · intro other member
    rw [List.mem_singleton.mp member]
    exact readable

theorem SectorsFrom.cluster {cluster : UInt32} {rest : List Sector}
    (behind : SectorsFrom fs (.reliable content) cluster fs.sectorsPerCluster rest ending)
    (readable : ∀ index < fs.sectorsPerCluster.toNat,
      fs.start + (UInt32.ofNat index + fs.firstSectorOfCluster cluster).toUInt64 ≤ fs.last)
    (remaining index : Nat) (total : index + remaining = fs.sectorsPerCluster.toNat) :
    SectorsFrom fs (.reliable content) cluster (UInt32.ofNat index)
      ((directorySectors fs content cluster).drop index ++ rest) ending := by
  induction remaining generalizing index with
  | zero =>
    have finished : (directorySectors fs content cluster).drop index = [] := by
      apply List.drop_eq_nil_of_le
      simp [directorySectors]
      omega
    rw [finished, ← Nat.add_zero index, total, UInt32.ofNat_toNat]
    exact behind
  | succ remaining induction =>
    have inside : index < fs.sectorsPerCluster.toNat := by omega
    have listed : (directorySectors fs content cluster).drop index =
        content (fs.start +
          (UInt32.ofNat index + fs.firstSectorOfCluster cluster).toUInt64) ::
          (directorySectors fs content cluster).drop (index + 1) := by
      rw [List.drop_eq_getElem_cons (by simpa [directorySectors] using inside)]
      simp [directorySectors]
    rw [listed, List.cons_append]
    apply SectorsFrom.readable
    · rw [UInt32.lt_iff_toNat_lt, UInt32.toNat_ofNat',
        Nat.mod_eq_of_lt (Nat.lt_trans inside fs.sectorsPerCluster.toNat_lt)]
      exact inside
    · rw [Filesystem.read, if_neg (UInt64.not_lt.mpr (readable index inside))]
      rfl
    · have next := induction (index + 1) (by omega)
      rwa [UInt32.ofNat_add] at next

theorem FiniteDirectory.sectorsFrom {start : UInt32} {clusters : List UInt32}
    (finite : FiniteDirectory fs content start clusters) :
    SectorsFrom fs (.reliable content) start 0
      (clusters.flatMap (directorySectors fs content)) (.ok .endOfFile) := by
  rcases finite with ⟨chain, ends, readable⟩
  generalize first : some start = entrance at chain
  induction chain generalizing start with
  | nil => cases first
  | @cons cluster rest chain induction =>
    cases first
    rw [List.flatMap_cons]
    have behind : SectorsFrom fs (.reliable content) cluster fs.sectorsPerCluster
        (rest.flatMap (directorySectors fs content)) (.ok .endOfFile) := by
      cases successor : fs.successor content cluster with
      | none =>
        rw [successor] at chain
        cases chain
        exact .ended (UInt32.le_refl _) (ends cluster List.mem_cons_self successor)
      | some next =>
        apply SectorsFrom.following (UInt32.le_refl _)
          (Filesystem.nextCluster_of_successor successor)
        apply induction
        · exact fun later member => ends later (List.mem_cons_of_mem _ member)
        · exact fun later member => readable later (List.mem_cons_of_mem _ member)
        · exact successor.symm
    exact behind.cluster (readable cluster List.mem_cons_self) _ 0 (Nat.zero_add _)

/-! ## Repeated calls -/

def flatScan : LongName → List Record → List DirectoryEntry
  | _, [] => []
  | longEntry, record :: rest =>
    if record.first = 0 then []
    else if record.first = 0xe5 then flatScan longEntry rest
    else if record.flags = 0x0f then flatScan (record.copyLongName longEntry) rest
    else record.entry longEntry :: flatScan emptyName rest

def Record.InSequence (record : Record) : Prop :=
  record.flags = 0x0f → record.first ≠ 0 → record.first ≠ 0xe5 →
    1 ≤ record.sequence ∧ record.sequence ≤ 20

instance (record : Record) : Decidable record.InSequence :=
  inferInstanceAs (Decidable (_ → _))

theorem scanRecords_eq_flatScan {records : List Record}
    (inSequence : ∀ record ∈ records, record.InSequence) (longEntry : LongName) :
    scanRecords (.ok .endOfFile) longEntry records =
      ⟨flatScan longEntry records, .ok .endOfFile⟩ := by
  induction records generalizing longEntry with
  | nil => rfl
  | cons record rest induction =>
    have others := fun other => induction
      (fun record member => inSequence record (List.mem_cons_of_mem _ member)) other
    rw [scanRecords, flatScan]
    split_ifs with last unused part invalid
    · rfl
    · exact others longEntry
    · have valid := inSequence record List.mem_cons_self part last unused
      omega
    · exact others _
    · simp [others]

def responses (entries : List DirectoryEntry) (error : Error) (calls : Nat) :
    List (Except Error DirectoryEntry) :=
  (entries.map Except.ok ++ List.replicate calls (Except.error error)).take calls

theorem responses_nil (error : Error) (calls : Nat) :
    responses [] error (calls + 1) = .error error :: responses [] error calls := by
  simp [responses, List.replicate_succ]

theorem responses_cons (entry : DirectoryEntry) (rest : List DirectoryEntry) (error : Error)
    (calls : Nat) :
    responses (entry :: rest) error (calls + 1) = .ok entry :: responses rest error calls := by
  simp [responses, List.take_append, List.take_replicate]
  omega

theorem Directory.Lists.run {device : SectorDevice Unit} {fuel : Nat} {error : Error}
    (positive : 0 < fs.sectorsPerCluster) (calls : Nat) {dir : Directory}
    {entries : List DirectoryEntry} (lists : dir.Lists fs device fuel ⟨entries, .ok error⟩) :
    ∃ final, Machine.run (fun dir (_ : Unit) => dir.nextEntry fs device fuel) dir
        (List.replicate calls ()) = .ok (responses entries error calls, final) := by
  induction calls generalizing dir entries with
  | zero => exact ⟨dir, by simp [Machine.run, responses]⟩
  | succ calls induction =>
    have once := lists.nextEntry positive
    cases entries with
    | nil =>
      rcases once with ⟨next, called, others⟩
      rcases induction others with ⟨final, ran⟩
      refine ⟨final, ?_⟩
      simp only [List.replicate_succ, Machine.run, called, ran, responses_nil]
    | cons entry rest =>
      rcases once with ⟨next, called, others⟩
      rcases induction others with ⟨final, ran⟩
      refine ⟨final, ?_⟩
      simp only [List.replicate_succ, Machine.run, called, ran, responses_cons]

theorem FiniteDirectory.lists {start : UInt32} {clusters : List UInt32}
    (finite : FiniteDirectory fs content start clusters) {fuel : Nat}
    (enough : clusters.length * fs.sectorsPerCluster.toNat < fuel) :
    (getDirectory start).Lists fs (.reliable content) fuel
      (scanRecords (.ok .endOfFile) emptyName (directoryRecords fs content clusters)) := by
  refine ⟨start, _, _, rfl, finite.sectorsFrom, ?_, Nat.zero_le _, fun _ => rfl, rfl⟩
  simpa [List.length_flatMap, directorySectors] using enough

/-- The entries that repeated calls of `next_entry` return are those that a single
pass over the records of all clusters finds, and every further call returns
`EndOfFile` again. -/
theorem nextEntry_is_flat_scan (fs : Filesystem) (content : UInt64 → Sector) (start : UInt32)
    (clusters : List UInt32) (positive : 0 < fs.sectorsPerCluster)
    (finite : FiniteDirectory fs content start clusters)
    (inSequence : ∀ record ∈ directoryRecords fs content clusters, record.InSequence)
    (fuel : Nat) (enough : clusters.length * fs.sectorsPerCluster.toNat < fuel) (calls : Nat) :
    ∃ final, Machine.run (fun dir (_ : Unit) => dir.nextEntry fs (.reliable content) fuel)
        (getDirectory start) (List.replicate calls ()) =
      .ok (responses (flatScan emptyName (directoryRecords fs content clusters)) .endOfFile calls,
        final) := by
  have lists := finite.lists enough
  rw [scanRecords_eq_flatScan inSequence] at lists
  exact lists.run positive calls

/-! ## A directory in two clusters -/

def longPart : List UInt8 := [0x41, 0x61] ++ List.replicate 9 0 ++ 0x0f :: List.replicate 20 0

def shortRecord : List UInt8 := 0x41 :: List.replicate 10 0x20 ++ List.replicate 21 0

/-- The long name is in the last record of the first cluster, the entry in the next one. -/
def twoClusters (sector : UInt64) : Sector :=
  .ofBytes (if sector = 0 then List.replicate 8 0 ++ [3, 0, 0, 0, 0xff, 0xff, 0xff, 0x0f]
    else if sector = 1 then List.replicate 480 0xe5 ++ longPart else shortRecord)

theorem nextEntry_is_flat_scan_two_clusters :
    ∃ entry final,
      Machine.run
          (fun dir (_ : Unit) => dir.nextEntry
            ⟨0, 10, 512, .fat32, 1, 0, 1⟩ (.reliable twoClusters) 3)
          (getDirectory 2) (List.replicate 2 ()) =
        .ok ([.ok entry, .error .endOfFile], final) ∧
      entry.name.toList.take 2 = [0x41, 0] ∧ entry.longName.toList.take 2 = [0x61, 0] := by
  let fs : Filesystem := ⟨0, 10, 512, .fat32, 1, 0, 1⟩
  have second : fs.successor twoClusters 2 = some 3 := by decide +kernel
  have last : fs.successor twoClusters 3 = none := by decide +kernel
  have finite : FiniteDirectory fs twoClusters 2 [2, 3] :=
    ⟨.cons (second ▸ .cons (last ▸ .nil)), List.all_iff_forall_prop.mp (by decide +kernel),
      List.all_iff_forall_prop.mp (by decide)⟩
  have inSequence : ∀ record ∈ directoryRecords fs twoClusters [2, 3], record.InSequence :=
    List.all_iff_forall_prop.mp (by decide +kernel)
  have names : (flatScan emptyName (directoryRecords fs twoClusters [2, 3])).map
      (fun entry => (entry.name.toList.take 2, entry.longName.toList.take 2)) =
        [([0x41, 0], [0x61, 0])] := by decide +kernel
  rcases List.map_eq_singleton_iff.mp names with ⟨entry, entries, named⟩
  have run := nextEntry_is_flat_scan fs twoClusters 2 [2, 3] (by decide) finite inSequence 3
    (by decide) 2
  rw [entries] at run
  rcases run with ⟨final, ran⟩
  exact ⟨entry, final, ran, Prod.mk.inj named⟩

end HypervisorFirmware.Fat
