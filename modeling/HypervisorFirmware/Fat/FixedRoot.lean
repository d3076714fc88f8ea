import HypervisorFirmware.Fat.Restart

/-! # The bounds of the fixed root directory

The root directory of a FAT12 or FAT16 volume has a fixed number of sectors, but
nothing in `next_entry` counts them: what keeps the iterator inside is a record or a
sector that stops it. -/

namespace HypervisorFirmware.Fat

namespace Directory

variable {fs : Filesystem} {device : SectorDevice Unit}

/-! ## Up to the end mark -/

variable {dir : Directory} {result : Except Error Sector}

theorem nextEntries_error {error : Error}
    (stays : ∀ name, nextEntryBody fs device (dir, name) = .ok (.inr (.error error, dir)))
    (fuel calls : Nat) :
    dir.nextEntries fs device (fuel + 1) calls = .ok (responses [] error calls, dir) := by
  have same : responses [] error calls = List.replicate calls (.error error) := by
    simp [responses]
  rw [same]
  apply nextEntries_repeat
  rw [nextEntry, Loop.run, stays]

theorem Reads.nextEntries (positive : 0 < fs.sectorsPerCluster) {last : Directory}
    {records : List Record} (reads : Reads fs device dir records last)
    (inSequence : ∀ record ∈ records, record.InSequence)
    (ended : ∃ record ∈ records, record.first = 0) :
    ∃ enough, ∀ fuel, enough ≤ fuel → ∀ calls, ∃ final,
      dir.nextEntries fs device fuel calls =
        .ok (responses (flatScan emptyName records) .endOfFile calls, final) := by
  induction length : records.length using Nat.strong_induction_on generalizing dir records with
  | _ size induction =>
    rcases skipped_or_stop records with skips | ⟨skipped, record, rest, rfl, skips, stops⟩
    · rcases ended with ⟨record, member, zero⟩
      exact absurd zero (skips record member).1
    · rw [flatScan_skipped skips]
      by_cases zero : record.first = 0
      · rw [flatScan, if_pos zero]
        rcases reads.nextEntry_endOfFile positive skips zero with ⟨enough, stop, returns, stays⟩
        refine ⟨enough + 1, fun fuel many calls => ?_⟩
        cases calls with
        | zero => exact ⟨dir, rfl⟩
        | succ calls =>
          obtain ⟨more, rfl⟩ := Nat.exists_eq_add_of_le many
          have once := returns (enough + 1 + more) (by omega)
          rw [Nat.add_right_comm] at once ⊢
          rw [responses_nil]
          exact ⟨stop, nextEntries_succ once (nextEntries_error stays _ calls)⟩
      · have isEntry : record.IsEntry := by
          by_contra notEntry
          exact stops ⟨zero, notEntry, inSequence record (by simp)⟩
        have unused := isEntry.2.1
        rw [flatScan, if_neg zero, if_neg unused, if_neg isEntry.2.2]
        rcases reads.nextEntry positive skips isEntry with ⟨enough, next, returns, later⟩
        have endedLater : ∃ other ∈ rest, other.first = 0 := by
          rcases ended with ⟨other, member, zero'⟩
          simp only [List.mem_append, List.mem_cons] at member
          rcases member with member | rfl | member
          · exact absurd zero' (skips other member).1
          · exact absurd zero' zero
          · exact ⟨other, member, zero'⟩
        rcases induction rest.length (by rw [← length]; simp; omega) later
          (fun other member => inSequence other (by simp [member])) endedLater rfl with
          ⟨enough', others⟩
        refine ⟨max enough enough', fun fuel many calls => ?_⟩
        cases calls with
        | zero => exact ⟨dir, rfl⟩
        | succ calls =>
          rcases others fuel (Nat.le_trans (Nat.le_max_right _ _) many) calls with
            ⟨final, ran⟩
          rw [responses_cons]
          exact ⟨final, nextEntries_succ
            (returns fuel (Nat.le_trans (Nat.le_max_left _ _) many)) ran⟩

/-! ## Positions in a fixed directory -/

def fixed (sector : UInt32) (offset : Nat) : Directory := ⟨none, sector, offset, none⟩

theorem readSector_fixed_eq {sector : UInt32} {offset : Nat}
    {here : Directory} (found : (fixed sector offset).readSector fs device = .ok (result, here)) :
    here = fixed sector offset ∧
      ∀ data, result = .ok data → fs.read device sector.toUInt64 () = (some data, ()) := by
  rw [readSector_fixed rfl, Except.ok.injEq, Prod.mk.injEq] at found
  refine ⟨found.2.symm, ?_⟩
  rintro data rfl
  have read := found.1
  split at read
  · cases read
  · rename_i reading
    cases read
    exact reading

theorem getSector_in_chain {cluster : UInt32}
    (inChain : dir.cluster = some cluster) {outcome : Except Error UInt32 × Directory}
    (found : dir.getSector fs device = .ok outcome) : outcome.2.cluster ≠ none := by
  simp only [getSector, inChain] at found
  split at found
  · split at found
    · cases found
    · cases found
      simp [inChain]
    · cases found
      simp
  · cases found
    simp [inChain]

theorem readSector_left_fixed {here : Directory}
    (found : dir.readSector fs device = .ok (result, here)) (left : here.cluster = none) :
    here = dir := by
  cases cluster : dir.cluster with
  | none =>
    rw [readSector_fixed cluster, Except.ok.injEq, Prod.mk.injEq] at found
    exact found.2.symm
  | some number =>
    rcases readSector_eq_ok.mp found with ⟨sought, located, _⟩
    exact absurd left (getSector_in_chain cluster located)

theorem add_ofNat_zero (sector : UInt32) : sector + UInt32.ofNat 0 = sector :=
  UInt32.add_zero sector

theorem Reads.position {sector : UInt32} {records : List Record} {last : Directory}
    (reads : Reads fs device (fixed sector 0) records last) :
    ∃ count offset, last = fixed (sector + UInt32.ofNat count) offset ∧
      ∀ index < count, ∃ data,
        fs.read device (sector + UInt32.ofNat index).toUInt64 () = (some data, ()) ∧
        ∀ record ∈ data.records, record ∈ records := by
  generalize start : fixed sector 0 = dir at reads
  induction reads generalizing sector with
  | start =>
    subst start
    refine ⟨0, 0, ?_, fun index below => absurd below (Nat.not_lt_zero index)⟩
    rw [add_ofNat_zero]
  | part index found low high =>
    subst start
    rcases readSector_fixed_eq found with ⟨rfl, _⟩
    refine ⟨0, index, ?_, fun index below => absurd below (Nat.not_lt_zero index)⟩
    rw [add_ofNat_zero]
    rfl
  | @sector dir here last data records found later induction =>
    subst start
    rcases readSector_fixed_eq found with ⟨rfl, read⟩
    rcases @induction (sector + 1) rfl with ⟨count, offset, rfl, before⟩
    have shifted : ∀ index,
        sector + 1 + UInt32.ofNat index = sector + UInt32.ofNat (index + 1) := by
      intro index
      rw [UInt32.ofNat_add, UInt32.add_assoc, UInt32.add_comm 1]
      rfl
    refine ⟨count + 1, offset, by rw [shifted], ?_⟩
    intro index below
    cases index with
    | zero =>
      refine ⟨data, ?_, ?_⟩
      · rw [add_ofNat_zero]
        exact read data rfl
      · exact fun record member => List.mem_append_left _ member
    | succ index =>
      rcases before index (Nat.lt_of_succ_lt_succ below) with ⟨other, reading, listed⟩
      rw [shifted] at reading
      exact ⟨other, reading, fun record member =>
        List.mem_append_right _ (listed record member)⟩

theorem reads_fixed (positive : 0 < fs.sectorsPerCluster) (sector : UInt32)
    (sectors : Nat → Sector) (count : Nat)
    (readable : ∀ index < count,
      fs.read device (sector + UInt32.ofNat index).toUInt64 () = (some (sectors index), ())) :
    Reads fs device (fixed sector 0)
      ((List.range count).flatMap fun index => (sectors index).records)
      (fixed (sector + UInt32.ofNat count) 0) := by
  induction count with
  | zero =>
    rw [add_ofNat_zero]
    exact .start
  | succ count induction =>
    have before := induction fun index below => readable index (Nat.lt_succ_of_lt below)
    have found : (fixed (sector + UInt32.ofNat count) 0).readSector fs device =
        .ok (.ok (sectors count), fixed (sector + UInt32.ofNat count) 0) := by
      rw [readSector_fixed rfl]
      simp only [fixed, readable count (Nat.lt_succ_self count)]
    have next := before.trans positive (.sector found .start)
    rw [List.append_nil] at next
    rw [List.range_succ, List.flatMap_append, List.flatMap_singleton, UInt32.ofNat_add,
      ← UInt32.add_assoc]
    exact next

end Directory

/-! ## The root directory -/

namespace Volume

def rootSector (volume : Volume) (device : SectorDevice Unit) (index : Nat) : Option Sector :=
  (volume.toFilesystem.read device (volume.rootStart + UInt32.ofNat index).toUInt64 ()).1

def rootRecords (volume : Volume) (device : SectorDevice Unit) : List Record :=
  (List.range volume.rootDirSectors.toNat).flatMap fun index =>
    match volume.rootSector device index with
    | none => []
    | some data => data.records

end Volume

/-- Calls on the root directory only read its sectors, and return its entries and then
`EndOfFile`. -/
structure RootBounded (volume : Volume) (device : SectorDevice Unit) (start : Directory) :
    Prop where
  reads : ∀ fuel calls responses dir reached name sector here,
    start.nextEntries volume.toFilesystem device fuel calls = .ok (responses, dir) →
    Loop.Visits (Directory.nextEntryBody volume.toFilesystem device) (dir, emptyName)
      (reached, name) →
    reached.getSector volume.toFilesystem device = .ok (.ok sector, here) →
    ∃ index < volume.rootDirSectors.toNat, sector = volume.rootStart + UInt32.ofNat index
  ends : (∀ index < volume.rootDirSectors.toNat, volume.rootSector device index ≠ none) →
    (∀ record ∈ volume.rootRecords device, record.InSequence) →
    ∃ enough, ∀ fuel, enough ≤ fuel → ∀ calls, ∃ final,
      start.nextEntries volume.toFilesystem device fuel calls =
        .ok (responses (flatScan emptyName (volume.rootRecords device)) .endOfFile calls, final)

/-- A sector at which the iterator stops: it cannot be read, or one of its records is not
passable. -/
def StopsIn : Option Sector → Prop
  | none => True
  | some data => ∃ record ∈ data.records, ¬record.Passable

section

variable {volume : Volume} {device : SectorDevice Unit}

theorem position_within {index : Nat} (below : index < volume.rootDirSectors.toNat)
    (stops : StopsIn (volume.rootSector device index)) {records : List Record}
    {last : Directory}
    (reads : Directory.Reads volume.toFilesystem device volume.fixedRoot records last)
    (passable : ∀ record ∈ records, record.Passable) :
    ∃ count < volume.rootDirSectors.toNat, ∃ offset,
      last = Directory.fixed (volume.rootStart + UInt32.ofNat count) offset := by
  rcases Directory.Reads.position reads with ⟨count, offset, rfl, before⟩
  refine ⟨count, ?_, offset, rfl⟩
  apply Nat.lt_of_le_of_lt _ below
  by_contra passed
  rcases before index (Nat.lt_of_not_le passed) with ⟨data, read, listed⟩
  rw [Volume.rootSector, read] at stops
  rcases stops with ⟨record, member, stops⟩
  exact stops (passable record (listed record member))

theorem reads_of_stops (positive : 0 < volume.sectorsPerCluster) {index : Nat}
    (below : index < volume.rootDirSectors.toNat)
    (stops : StopsIn (volume.rootSector device index)) {fuel calls : Nat}
    {responses : List (Except Error DirectoryEntry)} {dir reached here : Directory}
    {name : LongName} {sector : UInt32}
    (returned : volume.fixedRoot.nextEntries volume.toFilesystem device fuel calls =
      .ok (responses, dir))
    (visits : Loop.Visits (Directory.nextEntryBody volume.toFilesystem device) (dir, emptyName)
      (reached, name))
    (found : reached.getSector volume.toFilesystem device = .ok (.ok sector, here)) :
    ∃ index < volume.rootDirSectors.toNat, sector = volume.rootStart + UInt32.ofNat index := by
  have within : ∃ count < volume.rootDirSectors.toNat, ∃ offset,
      reached = Directory.fixed (volume.rootStart + UInt32.ofNat count) offset := by
    rcases Directory.nextEntries_standing positive returned with
      ⟨before, reads, passable, _⟩ | ⟨before, failed, result, error, reads, passable, read, stays⟩
    · rcases Directory.visits_reads positive visits with ⟨skipped, further, skips, _⟩
      apply position_within below stops (reads.trans positive further)
      exact List.forall_mem_append.mpr ⟨passable, fun record member =>
        (skips record member).passable⟩
    · rcases position_within below stops reads passable with ⟨count, inside, offset, rfl⟩
      rcases Directory.readSector_fixed_eq read with ⟨rfl, _⟩
      rcases visits.cases_start with same | ⟨next, went, _⟩
      · rw [Prod.mk.injEq] at same
        exact ⟨count, inside, offset, same.1⟩
      · rw [stays] at went
        cases went
  rcases within with ⟨count, inside, offset, rfl⟩
  cases found
  exact ⟨count, inside, rfl⟩

theorem reads_root (positive : 0 < volume.sectorsPerCluster)
    (readable : ∀ index < volume.rootDirSectors.toNat, volume.rootSector device index ≠ none) :
    Directory.Reads volume.toFilesystem device volume.fixedRoot (volume.rootRecords device)
      (Directory.fixed (volume.rootStart + volume.rootDirSectors) 0) := by
  let sectors := fun index => (volume.rootSector device index).getD (Vector.replicate 512 0)
  have contents : ∀ index < volume.rootDirSectors.toNat,
      volume.rootSector device index = some (sectors index) := by
    intro index below
    obtain ⟨data, found⟩ := Option.ne_none_iff_exists'.mp (readable index below)
    simp only [sectors, found, Option.getD_some]
  have records : volume.rootRecords device =
      (List.range volume.rootDirSectors.toNat).flatMap fun index => (sectors index).records := by
    apply List.flatMap_congr
    intro index member
    rw [contents index (List.mem_range.mp member)]
  have reads := Directory.reads_fixed positive volume.rootStart sectors
    volume.rootDirSectors.toNat fun index below => Prod.ext (contents index below) rfl
  rwa [← records, UInt32.ofNat_toNat] at reads

theorem mem_rootRecords {record : Record} :
    record ∈ volume.rootRecords device ↔ ∃ index < volume.rootDirSectors.toNat, ∃ data,
      volume.rootSector device index = some data ∧ record ∈ data.records := by
  rw [Volume.rootRecords, List.mem_flatMap]
  constructor
  · rintro ⟨index, inside, listed⟩
    cases found : volume.rootSector device index with
    | none => simp [found] at listed
    | some data =>
      rw [found] at listed
      exact ⟨index, List.mem_range.mp inside, data, found, listed⟩
  · rintro ⟨index, inside, data, found, listed⟩
    refine ⟨index, List.mem_range.mpr inside, ?_⟩
    rw [found]
    exact listed

variable (positive : 0 < volume.sectorsPerCluster)
  (never : ∀ index < volume.rootDirSectors.toNat, ¬StopsIn (volume.rootSector device index))

include positive never

theorem visits_behind :
    ∃ fuel calls responses dir offset name,
      volume.fixedRoot.nextEntries volume.toFilesystem device fuel calls = .ok (responses, dir) ∧
      Loop.Visits (Directory.nextEntryBody volume.toFilesystem device) (dir, emptyName)
        (Directory.fixed (volume.rootStart + volume.rootDirSectors) offset, name) := by
  have readable : ∀ index < volume.rootDirSectors.toNat, volume.rootSector device index ≠ none := by
    intro index below missing
    apply never index below
    rw [missing]
    trivial
  have passable : ∀ record ∈ volume.rootRecords device, record.Passable := by
    intro record member
    rcases mem_rootRecords.mp member with ⟨index, below, data, found, listed⟩
    by_contra stops
    apply never index below
    rw [found]
    exact ⟨record, listed, stops⟩
  rcases (reads_root positive readable).calls positive passable with
    ⟨before, skipped, dir, _, skips, _, toward, enough, calls, called⟩
  rcases called enough (Nat.le_refl _) with ⟨responses, ran⟩
  rcases toward.visits positive skips with ⟨reached, name, visits, ends⟩
  have at_end : ∃ offset,
      reached = Directory.fixed (volume.rootStart + volume.rootDirSectors) offset := by
    rcases ends with same | ⟨data, here, offset, found, same⟩
    · exact ⟨0, same⟩
    · rcases here with ⟨cluster, sector, offset', clusterStart⟩
      rw [Directory.fixed, Directory.mk.injEq] at same
      rcases same with ⟨rfl, rfl, _, rfl⟩
      exact ⟨offset', (Directory.readSector_left_fixed found rfl).symm⟩
  rcases at_end with ⟨offset, rfl⟩
  exact ⟨enough, calls, responses, dir, offset, name, ran, visits⟩

theorem not_bounded_of_no_stop : ¬RootBounded volume device volume.fixedRoot := by
  intro bounded
  rcases visits_behind positive never with
    ⟨fuel, calls, responses, dir, offset, name, returned, visits⟩
  rcases bounded.reads fuel calls responses dir _ name _ _ returned visits rfl with
    ⟨index, below, same⟩
  have equal := congrArg UInt32.toNat ((UInt32.add_right_inj _).mp same)
  have bound := volume.rootDirSectors.toNat_lt
  rw [UInt32.toNat_ofNat', Nat.mod_eq_of_lt (Nat.lt_trans below bound)] at equal
  exact Nat.ne_of_gt below equal

end

/-- The iterator stays in the root directory, and ends with it, exactly if the root
directory has a sector that cannot be read, or a record that ends the directory or is a
part of a long name without a place. -/
theorem rootBounded_iff_stops (volume : Volume) (device : SectorDevice Unit) (start : Directory)
    (positive : 0 < volume.sectorsPerCluster)
    (fixed : volume.fatType = .fat12 ∨ volume.fatType = .fat16)
    (obtained : volume.obtain .root = some start) :
    RootBounded volume device start ↔
      ∃ index < volume.rootDirSectors.toNat, StopsIn (volume.rootSector device index) := by
  rw [Volume.obtain_fixed fixed, Option.some.injEq] at obtained
  subst obtained
  constructor
  · intro bounded
    by_contra never
    push Not at never
    exact not_bounded_of_no_stop positive never bounded
  · rintro ⟨index, below, stops⟩
    constructor
    · intro fuel calls responses dir reached name sector here returned visits found
      exact reads_of_stops positive below stops returned visits found
    · intro readable inSequence
      apply (reads_root positive readable).nextEntries positive inSequence
      obtain ⟨data, found⟩ := Option.ne_none_iff_exists'.mp (readable index below)
      rw [found] at stops
      rcases stops with ⟨record, listed, stops⟩
      have member := mem_rootRecords.mpr ⟨index, below, data, found, listed⟩
      refine ⟨record, member, ?_⟩
      by_contra nonzero
      exact stops ⟨nonzero, inSequence record member⟩

def fullAndEmpty (sector : UInt64) : Sector :=
  Vector.replicate 512 (if sector = 2 then 0x41 else 0)

/-- A root directory of two sectors, the first of them full of entries. -/
theorem rootBounded_iff_stops_second_sector :
    RootBounded ⟨⟨0, 10, 512, .fat12, 1, 1, 4⟩, 2, 0⟩ (.reliable fullAndEmpty)
      ⟨none, 2, 0, none⟩ := by
  apply (rootBounded_iff_stops ⟨⟨0, 10, 512, .fat12, 1, 1, 4⟩, 2, 0⟩ (.reliable fullAndEmpty)
    ⟨none, 2, 0, none⟩ (by decide) (Or.inl rfl) rfl).mpr
  refine ⟨1, by decide, Sector.record (fullAndEmpty 3) 0, ?_, ?_⟩
  · exact List.mem_map_of_mem (List.mem_finRange 0)
  · intro passable
    exact passable.1 rfl

/-- A root directory of one sector that is full of entries: the seventeenth call reads
the sector behind it. -/
theorem not_rootBounded_full_root :
    ¬RootBounded ⟨⟨0, 10, 512, .fat12, 1, 1, 3⟩, 1, 0⟩
      (.reliable fun _ => Vector.replicate 512 0x41) ⟨none, 2, 0, none⟩ := by
  apply not_bounded_of_no_stop (by decide)
  intro index below stops
  obtain rfl : index = 0 := Nat.lt_one_iff.mp below
  rcases stops with ⟨record, listed, stops⟩
  revert record
  decide +kernel

end HypervisorFirmware.Fat
