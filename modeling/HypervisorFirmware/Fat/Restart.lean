import HypervisorFirmware.Fat.DirectoryRecords
import HypervisorFirmware.Fat.Open

/-! # Restarting a directory

`reset` sets the sector to zero. For a chain of clusters this is where it begins; the
fixed root directory of FAT12 and FAT16 begins elsewhere. -/

namespace HypervisorFirmware.Fat

/-- What a directory is obtained from: `root`, or `get_directory` of a cluster. -/
inductive Origin
  | root
  | cluster (cluster : UInt32)

def Volume.obtain (volume : Volume) : Origin → Option Directory
  | .root =>
    match volume.root with
    | .error _ => none
    | .ok root => root.dir
  | .cluster cluster => some (getDirectory cluster)

def Volume.rootStart (volume : Volume) : UInt32 :=
  volume.firstDataSector - volume.rootDirSectors

/-- A directory that was used and reset returns what a new one returns. -/
def Restarts (volume : Volume) (origin : Origin) : Prop :=
  ∀ device fuel calls more fresh responses used, volume.obtain origin = some fresh →
    fresh.nextEntries volume.toFilesystem device fuel calls = .ok (responses, used) →
    (used.reset.nextEntries volume.toFilesystem device fuel more).map Prod.fst =
      (fresh.nextEntries volume.toFilesystem device fuel more).map Prod.fst

namespace Directory

variable {fs : Filesystem} {device : SectorDevice Unit}

/-! ## What calls leave as it is -/

variable {dir : Directory}

theorem getSector_keeps {here : Directory} {result : Except Error UInt32}
    (found : dir.getSector fs device = .ok (result, here)) :
    here.clusterStart = dir.clusterStart := by
  rw [getSector] at found
  split at found
  · cases found
    rfl
  · split at found
    · split at found
      · cases found
      · cases found
        rfl
      · cases found
        rfl
    · cases found
      rfl

theorem readSector_keeps {here : Directory} {result : Except Error Sector}
    (found : dir.readSector fs device = .ok (result, here)) :
    here.clusterStart = dir.clusterStart := by
  rcases readSector_eq_ok.mp found with ⟨sought, located, _⟩
  exact getSector_keeps located

theorem nextEntry_keeps {next : Directory} {fuel : Nat} {result : Except Error DirectoryEntry}
    (returned : dir.nextEntry fs device fuel = .ok (result, next)) :
    next.clusterStart = dir.clusterStart := by
  rcases Loop.visits_of_run returned with ⟨⟨reached, name⟩, visits, last⟩
  have kept : reached.clusterStart = dir.clusterStart := by
    apply visits.invariant (fun state => state.1.clusterStart = dir.clusterStart) _ rfl
    intro state following same stepped
    rcases nextEntryBody_cases stepped with
      ⟨_, here, found, ⟨_, ⟨⟩, _⟩ | ⟨_, _, ⟨_, _, ⟨⟩, _⟩ | ⟨behind, went, _⟩⟩⟩
    rw [Sum.inl.inj went]
    exact (readSector_keeps found).trans same
  rcases nextEntryBody_cases last with
    ⟨_, here, found, ⟨_, same, _⟩ | ⟨_, _, ⟨_, _, same, _⟩ | ⟨_, ⟨⟩, _⟩⟩⟩
  all_goals
    rw [Sum.inr.injEq, Prod.mk.injEq] at same
    rw [same.2, ← kept, ← readSector_keeps found]

theorem nextEntries_keep {used : Directory} {fuel calls : Nat}
    {responses : List (Except Error DirectoryEntry)}
    (returned : dir.nextEntries fs device fuel calls = .ok (responses, used)) :
    used.clusterStart = dir.clusterStart := by
  apply Machine.run_invariant (fun state => state.clusterStart = dir.clusterStart) _ rfl
    (Machine.everyStep_of_forall (fun _ _ => trivial) _) returned
  intro state _ response next same _ stepped
  exact (nextEntry_keeps stepped).trans same

/-! ## The fixed root directory -/

theorem readSector_fixed (fixed : dir.cluster = none) :
    dir.readSector fs device =
      .ok (match fs.read device dir.sector.toUInt64 () with
        | (none, _) => .error .blockError
        | (some data, _) => .ok data, dir) := by
  rw [readSector, getSector, fixed]
  rcases reading : fs.read device dir.sector.toUInt64 () with ⟨_ | data, _⟩
  all_goals simp [reading]

theorem nextEntries_beyond (dir : Directory) (fixed : dir.cluster = none)
    (beyond : fs.last < fs.start + dir.sector.toUInt64) (fuel calls : Nat) :
    dir.nextEntries fs device (fuel + 1) calls =
      .ok (List.replicate calls (.error .blockError), dir) := by
  apply nextEntries_repeat
  rw [nextEntry, Loop.run, nextEntryBody_eq, readSector_fixed fixed, Filesystem.read, if_pos beyond]
  rfl

end Directory

/-! ## Restarting -/

def Volume.fixedRoot (volume : Volume) : Directory where
  cluster := none
  sector := volume.rootStart
  offset := 0
  clusterStart := none

theorem Volume.obtain_fixed {volume : Volume}
    (fixed : volume.fatType = .fat12 ∨ volume.fatType = .fat16) :
    volume.obtain .root = some volume.fixedRoot := by
  rcases fixed with width | width
  all_goals
    rw [obtain, root, width]
    rfl

theorem restarts_chain {volume : Volume} {origin : Origin} {cluster : UInt32}
    (chain : volume.obtain origin = some (getDirectory cluster)) : Restarts volume origin := by
  intro device fuel calls more fresh responses used obtained returned
  rw [chain, Option.some.injEq] at obtained
  have same : used.reset = fresh := by
    rw [Directory.reset, Directory.nextEntries_keep returned, ← obtained]
    rfl
  rw [same]

theorem restarts_wide {volume : Volume} (not12 : volume.fatType ≠ .fat12)
    (not16 : volume.fatType ≠ .fat16) : Restarts volume .root := by
  cases width : volume.fatType with
  | fat12 => exact absurd width not12
  | fat16 => exact absurd width not16
  | fat32 =>
    apply restarts_chain
    rw [Volume.obtain, Volume.root, width]
    rfl
  | unknown =>
    intro device fuel calls more fresh responses used obtained
    rw [Volume.obtain, Volume.root, width] at obtained
    cases obtained

theorem restarts_fixed {volume : Volume} (fixed : volume.fatType = .fat12 ∨ volume.fatType = .fat16)
    (same : ∀ device fuel calls,
      (Directory.nextEntries volume.toFilesystem device fuel calls ⟨none, 0, 0, none⟩).map
          Prod.fst =
        (volume.fixedRoot.nextEntries volume.toFilesystem device fuel calls).map Prod.fst) :
    Restarts volume .root := by
  intro device fuel calls more fresh responses used obtained returned
  rw [Volume.obtain_fixed fixed, Option.some.injEq] at obtained
  rw [Directory.reset, Directory.nextEntries_keep returned, ← obtained]
  exact same device fuel more

theorem restarts_root {volume : Volume} (condition : volume.rootStart = 0 ∨
      volume.last < volume.start ∧ volume.last < volume.start + volume.rootStart.toUInt64) :
    Restarts volume .root := by
  by_cases wide : volume.fatType ≠ .fat12 ∧ volume.fatType ≠ .fat16
  · exact restarts_wide wide.1 wide.2
  · apply restarts_fixed (by simpa [Classical.or_iff_not_imp_left] using wide)
    intro device fuel calls
    rcases condition with atStart | ⟨noFirst, noRoot⟩
    · rw [Volume.fixedRoot, atStart]
    · cases fuel with
      | zero => cases calls <;> rfl
      | succ fuel =>
        have first : volume.last < volume.start + (0 : UInt32).toUInt64 := by
          rwa [show (0 : UInt32).toUInt64 = 0 from rfl, UInt64.add_zero]
        rw [Directory.nextEntries_beyond ⟨none, 0, 0, none⟩ rfl first,
          Directory.nextEntries_beyond volume.fixedRoot rfl noRoot]
        rfl

def SectorDevice.emptyFirst (start : UInt64) : SectorDevice Unit :=
  .reliable fun sector =>
    if sector = start then Vector.replicate 512 0 else Vector.replicate 512 0x41

theorem Sector.record_replicate (byte : UInt8) (index : Fin 16) :
    Sector.record (Vector.replicate 512 byte) index = Vector.replicate 32 byte := by
  apply Vector.ext
  intro offset inside
  rw [Sector.record, Vector.getElem_ofFn, Vector.getElem_replicate]
  exact Vector.getElem_replicate _

theorem findRecord_zeros :
    findRecord emptyName (Sector.records (Vector.replicate 512 0)) = .ok .endOfFile := by
  have records := drop_records (Vector.replicate 512 0) (show 0 < 16 by decide)
  rw [List.drop_zero, Sector.record_replicate] at records
  rw [records, findRecord, if_pos (by decide)]

theorem findRecord_letters :
    ∃ rest, findRecord emptyName (Sector.records (Vector.replicate 512 0x41)) =
      .ok (.entry (Record.entry (Vector.replicate 32 0x41) emptyName) rest) := by
  have records := drop_records (Vector.replicate 512 0x41) (show 0 < 16 by decide)
  rw [List.drop_zero, Sector.record_replicate] at records
  rw [records, findRecord, if_neg (by decide), if_pos (by decide)]
  exact ⟨_, rfl⟩

theorem firstEntry_emptyFirst (fs : Filesystem) (sector : UInt32) :
    (Directory.nextEntries fs (.emptyFirst fs.start) 1 1 ⟨none, sector, 0, none⟩).map Prod.fst =
      .ok [if fs.last < fs.start + sector.toUInt64 then .error .blockError
        else if sector = 0 then .error .endOfFile
        else .ok (Record.entry (Vector.replicate 32 0x41) emptyName)] := by
  by_cases beyond : fs.last < fs.start + sector.toUInt64
  · rw [Directory.nextEntries_beyond ⟨none, sector, 0, none⟩ rfl beyond, if_pos beyond]
    rfl
  · have first : fs.start + sector.toUInt64 = fs.start ↔ sector = 0 := by
      rw [UInt64.add_eq_left, ← UInt64.toNat_inj, ← UInt32.toNat_inj, UInt32.toNat_toUInt64]
      rfl
    have found : Directory.readSector fs (.emptyFirst fs.start) ⟨none, sector, 0, none⟩ =
        .ok (.ok (if sector = 0 then Vector.replicate 512 0 else Vector.replicate 512 0x41),
          ⟨none, sector, 0, none⟩) := by
      rw [Directory.readSector_fixed rfl, Filesystem.read, if_neg beyond]
      simp only [SectorDevice.read, SectorDevice.emptyFirst, SectorDevice.reliable, first]
    have body := Directory.nextEntryBody_sector found emptyName
    have called : Directory.nextEntry fs (.emptyFirst fs.start) 1 ⟨none, sector, 0, none⟩ =
        Loop.run (Directory.nextEntryBody fs (.emptyFirst fs.start)) 1
          (⟨none, sector, 0, none⟩, emptyName) := rfl
    rw [List.drop_zero] at body
    rw [if_neg beyond]
    by_cases zero : sector = 0
    · rw [if_pos zero, findRecord_zeros] at body
      have once : Directory.nextEntry fs (.emptyFirst fs.start) 1 ⟨none, sector, 0, none⟩ =
          .ok (.error .endOfFile, ⟨none, sector, 0, none⟩) := by
        rw [called, Loop.run, body]
        rfl
      rw [Directory.nextEntries_succ once rfl, if_pos zero]
      rfl
    · rcases findRecord_letters with ⟨rest, scanned⟩
      rw [if_neg zero, scanned] at body
      have once : ∃ next, Directory.nextEntry fs (.emptyFirst fs.start) 1
          ⟨none, sector, 0, none⟩ =
            .ok (.ok (Record.entry (Vector.replicate 32 0x41) emptyName), next) := by
        rw [called, Loop.run, body]
        exact ⟨_, rfl⟩
      rcases once with ⟨next, once⟩
      rw [Directory.nextEntries_succ once rfl, if_neg zero]
      rfl

/-- A directory can be restarted unless it is the fixed root directory of a FAT12 or
FAT16 volume, which begins behind the first sector, and that or the first sector is on
the volume. -/
theorem restarts_iff (volume : Volume) (origin : Origin) :
    Restarts volume origin ↔
      origin ≠ .root ∨ (volume.fatType ≠ .fat12 ∧ volume.fatType ≠ .fat16) ∨
        volume.rootStart = 0 ∨
        volume.last < volume.start ∧ volume.last < volume.start + volume.rootStart.toUInt64 := by
  constructor
  · intro restarts
    by_contra fails
    push Not at fails
    rcases fails with ⟨rfl, narrow, behind, onVolume⟩
    have fixed : volume.fatType = .fat12 ∨ volume.fatType = .fat16 := by
      by_cases width : volume.fatType = .fat12
      · exact Or.inl width
      · exact Or.inr (narrow width)
    have same := restarts (.emptyFirst volume.start) 1 0 1 volume.fixedRoot [] volume.fixedRoot
      (Volume.obtain_fixed fixed) rfl
    have there := firstEntry_emptyFirst volume.toFilesystem volume.rootStart
    have here := firstEntry_emptyFirst volume.toFilesystem 0
    have agree := here.symm.trans (same.trans there)
    rw [if_pos rfl, if_neg behind] at agree
    split_ifs at agree with noFirst noRoot noRoot
    · rw [show (0 : UInt32).toUInt64 = 0 from rfl, UInt64.add_zero] at noFirst
      exact onVolume noFirst noRoot
    · cases agree
    · cases agree
    · cases agree
  · intro condition
    cases origin with
    | cluster cluster => exact restarts_chain rfl
    | root =>
      rcases condition with other | wide | atStart | beyond
      · exact absurd rfl other
      · exact restarts_wide wide.1 wide.2
      · exact restarts_root (Or.inl atStart)
      · exact restarts_root (Or.inr beyond)

/-- The root directory of a FAT12 volume with its root directory in sector 2, and no
records in sector 0. -/
theorem not_restarts_fat12 :
    ¬Restarts ⟨⟨0, 10, 512, .fat12, 1, 1, 3⟩, 1, 0⟩ .root := by
  intro restarts
  have same := restarts (.emptyFirst 0) 1 0 1 ⟨none, 2, 0, none⟩ [] ⟨none, 2, 0, none⟩ rfl rfl
  rw [show Directory.reset ⟨none, 2, 0, none⟩ = ⟨none, 0, 0, none⟩ from rfl] at same
  have agree := (firstEntry_emptyFirst _ 0).symm.trans (same.trans (firstEntry_emptyFirst _ 2))
  cases agree

end HypervisorFirmware.Fat
