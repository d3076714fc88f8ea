import HypervisorFirmware.Efi.BlockWrappers
import HypervisorFirmware.Part.EfiSearch

/-! # Partition tables of any size

The number of used entries, their slots and `part_count` come from the disk, while the
output of `get_partitions` and the arrays of `populate_block_wrappers` have a fixed
length. `get_partitions` takes whole sectors of four slots and does not look at the
length of its output. -/

namespace HypervisorFirmware.Efi

open Fat (SectorDevice Sector)
open HypervisorFirmware.Part

variable {State : Type}

/-! ## What is expected of both functions -/

def countedEntries (content : UInt64 → Sector) : List PartitionEntry :=
  ((slots content).take (header content).partCount.toNat).filter PartitionEntry.isUsed

section

variable (device : SectorDevice State)

/-- The header is accepted and every sector of the table can be read. -/
def PresentsTable (state : State) : Prop :=
  ∃ next, readHeader device state = (.ok (header device.content), next) ∧
    readable device (header device.content).sectors (header device.content).firstPartLba next =
      (header device.content).sectors

/-- `get_partitions` stays inside its output and returns the counted entries, or an error
if the table cannot be read or they do not fit. -/
def CopiesCounted (partsOut : List PartitionEntry) (state : State) : Prop :=
  ∃ result copied next, getPartitions device partsOut state = .ok ((result, copied), next) ∧
    copied.length = partsOut.length ∧
    match result with
    | .ok count =>
      count.toNat = (countedEntries device.content).length ∧
        copied.take count.toNat = countedEntries device.content
    | .error _ =>
      ¬PresentsTable device state ∨ partsOut.length < (countedEntries device.content).length

/-- `populate_block_wrappers` stays inside its arrays. (It unwraps the result of
`get_partitions`, so an error there is a panic of another kind.) -/
def PopulatesInside (capacity : UInt64) (wrappers : BlockWrappers) (state : State) : Prop :=
  ∃ result parts next,
    getPartitions device (List.replicate 16 .zeroed) state = .ok ((result, parts), next) ∧
      ∀ count, result = .ok count →
        ∃ populated, populateBlockWrappers device capacity wrappers state = .ok populated

def foundEntries (next : State) : List PartitionEntry :=
  readEntries device (header device.content).scannedSectors (header device.content).firstPartLba
    next

abbrev ReadsScanned (next : State) : Prop :=
  readable device (header device.content).scannedSectors (header device.content).firstPartLba
    next = (header device.content).scannedSectors

end

def NoneBehindCount (content : UInt64 → Sector) : Prop :=
  ∀ entry ∈ (slotsFrom content (header content).firstPartLba
    (header content).scannedSectors).drop (header content).partCount.toNat, entry.isUsed = false

/-- The condition on a disk: there are not more used entries in the sectors that are read
than places for them. If all sectors of the scan are read, there is a wrapper for each
entry, and only the first `part_count` slots are used. -/
def TableFits (device : SectorDevice State) (room : Nat) (state : State) : Prop :=
  ∀ next, readHeader device state = (.ok (header device.content), next) →
    (foundEntries device next).length ≤ min room 16 ∧
      (ReadsScanned device next →
        (foundEntries device next).length ≤ 15 ∧ NoneBehindCount device.content)

/-! ## `get_partitions` -/

variable {device : SectorDevice State} {state next : State}

theorem getPartitions_of_rejected {error : Part.Error}
    (rejected : readHeader device state = (.error error, next))
    (partsOut : List PartitionEntry) :
    getPartitions device partsOut state = .ok ((.error error, partsOut), next) := by
  rw [getPartitions, rejected]

theorem nothing_copied (partsOut : List PartitionEntry) :
    Part.Copied [] partsOut.length ((0 : UInt32), partsOut) :=
  ⟨rfl, ⟨partsOut, rfl⟩, rfl⟩

section

variable (accepted : readHeader device state = (.ok (header device.content), next))
  {partsOut : List PartitionEntry}

include accepted

theorem getPartitions_fits (fits : (foundEntries device next).length ≤ partsOut.length)
    (small : (foundEntries device next).length < 2 ^ 32) :
    ∃ output after, getPartitions device partsOut state =
        .ok ((if ReadsScanned device next then .ok output.1 else .error .blockError, output.2),
          after) ∧
      Part.Copied (foundEntries device next) partsOut.length output := by
  rw [foundEntries] at fits small ⊢
  rw [getPartitions, accepted, ← List.nil_append (readEntries _ _ _ _)]
  apply getPartitionsFrom_fits (nothing_copied partsOut) (Header.scanned_eq_scannedSectors _)
  · rw [List.length_nil, Nat.zero_add]
    exact fits
  · rw [List.length_nil, Nat.zero_add]
    exact small

theorem getPartitions_overflows (small : partsOut.length < 2 ^ 32)
    (tooMany : partsOut.length < (foundEntries device next).length) :
    getPartitions device partsOut state = .error .panicked := by
  rw [getPartitions, accepted]
  apply getPartitionsFrom_overflows (nothing_copied partsOut) small
  rwa [List.length_nil, Nat.zero_add, Header.scanned_eq_scannedSectors]

end

theorem countedEntries_eq (content : UInt64 → Sector) :
    countedEntries content =
      ((slotsFrom content (header content).firstPartLba (header content).scannedSectors).take
        (header content).partCount.toNat).filter PartitionEntry.isUsed := by
  have few := (header content).scannedSectors_le
  have length : (slots content).length = 4 * (header content).sectors := length_slotsFrom _ _ _
  rw [slotsFrom_eq_take content _ few, List.take_take, countedEntries]
  by_cases whole : (header content).scannedSectors = (header content).sectors
  · have all : (slots content).take (header content).partCount.toNat =
        (slots content).take (min (header content).partCount.toNat (slots content).length) := by
      rw [← List.take_take, List.take_length]
    rw [all, length, whole]
    rfl
  · have enough : (header content).partCount.toNat ≤ 4 * (header content).scannedSectors := by
      unfold Header.scannedSectors at whole ⊢
      split_ifs at whole ⊢ <;> omega
    rw [Nat.min_eq_left enough]
    rfl

theorem usedEntries_eq_countedEntries_iff (content : UInt64 → Sector) :
    usedEntries content = countedEntries content ↔ NoneBehindCount content := by
  rw [usedEntries, countedEntries_eq, NoneBehindCount]
  conv_lhs =>
    lhs
    rw [← List.take_append_drop (header content).partCount.toNat (slotsFrom content _ _),
      List.filter_append]
  rw [List.append_right_eq_self, List.filter_eq_nil_iff]
  simp

theorem foundEntries_of_readsScanned (reads : ReadsScanned device next) :
    foundEntries device next = usedEntries device.content := by
  rw [foundEntries, readEntries, reads, usedEntries]

theorem not_presentsTable (accepted : readHeader device state = (.ok (header device.content), next))
    (failed : ¬ReadsScanned device next) : ¬PresentsTable device state := by
  rintro ⟨next', accepted', all⟩
  rw [accepted] at accepted'
  cases accepted'
  apply failed
  have few := (header device.content).scannedSectors_le
  rw [ReadsScanned, readable_eq_min device few, all, Nat.min_eq_left few]

theorem copiesCounted_iff (accepted : readHeader device state = (.ok (header device.content), next))
    (small : (foundEntries device next).length < 2 ^ 32) (partsOut : List PartitionEntry) :
    CopiesCounted device partsOut state ↔
      (foundEntries device next).length ≤ partsOut.length ∧
        (ReadsScanned device next → NoneBehindCount device.content) := by
  by_cases fits : (foundEntries device next).length ≤ partsOut.length
  · rcases getPartitions_fits accepted fits small with
      ⟨⟨count, copied⟩, after, returned, isCount, ⟨rest, entries⟩, size⟩
    simp only at isCount entries size
    have counted : count.toNat = (foundEntries device next).length := by
      rw [isCount, UInt32.toNat_ofNat', Nat.mod_eq_of_lt small]
    have taken : copied.take count.toNat = foundEntries device next := by
      rw [counted, entries, List.take_left]
    rw [← usedEntries_eq_countedEntries_iff, CopiesCounted, returned]
    by_cases reads : ReadsScanned device next
    · rw [if_pos reads]
      rw [foundEntries_of_readsScanned reads] at counted taken
      constructor
      · rintro ⟨result, copied', after', same, _, expected⟩
        cases same
        refine ⟨fits, fun _ => ?_⟩
        rw [← taken]
        exact expected.2
      · rintro ⟨_, behind⟩
        refine ⟨_, _, _, rfl, size, ?_⟩
        rw [← behind reads]
        exact ⟨counted, taken⟩
    · rw [if_neg reads]
      constructor
      · exact fun _ => ⟨fits, fun all => absurd all reads⟩
      · exact fun _ => ⟨_, _, _, rfl, size, .inl (not_presentsTable accepted reads)⟩
  · have panics := getPartitions_overflows accepted (by omega) (Nat.lt_of_not_le fits)
    constructor
    · rintro ⟨result, copied, after, returned, _⟩
      rw [panics] at returned
      cases returned
    · exact fun ⟨fits', _⟩ => absurd fits' fits

/-! ## `populate_block_wrappers` -/

theorem populateBlockWrappers_sixteen {count : UInt32} {parts : List PartitionEntry}
    (got : getPartitions device (List.replicate 16 .zeroed) state = .ok ((.ok count, parts), next))
    (sixteen : count.toNat = 16) (capacity : UInt64) (wrappers : BlockWrappers) :
    populateBlockWrappers device capacity wrappers state = .error .panicked := by
  have size : parts.length = 16 := (getPartitions_ok (by simp) got).size
  have fifteen : (parts.take 15).length = 15 := by
    rw [List.length_take, size]
    rfl
  rcases @populated_foldlM capacity _ (parts.drop 15) (Nat.le_of_eq fifteen)
    wrappers.wrappers with ⟨populating, looped, _⟩
  rw [fifteen, List.take_append_drop] at looped
  have last : addPartition capacity parts populating 15 = .error .panicked := by
    rw [addPartition, List.getElem?_eq_getElem (by omega)]
    rfl
  have sixteenth : (List.range 16) = List.range 15 ++ [15] := rfl
  rw [populateBlockWrappers, got]
  simp only [Exec.ok_bind, sixteen, sixteenth, List.foldlM_append, looped, List.foldlM_cons, last]
  rfl

theorem populatesInside_iff
    (accepted : readHeader device state = (.ok (header device.content), next))
    (capacity : UInt64) (wrappers : BlockWrappers) :
    PopulatesInside device capacity wrappers state ↔
      (foundEntries device next).length ≤ 16 ∧
        (ReadsScanned device next → (foundEntries device next).length ≤ 15) := by
  have sixteen : (List.replicate 16 PartitionEntry.zeroed).length = 16 := List.length_replicate
  by_cases fits : (foundEntries device next).length ≤ 16
  · rcases getPartitions_fits accepted (sixteen.symm ▸ fits) (by omega) with
      ⟨⟨count, copied⟩, after, returned, isCount, _⟩
    simp only at isCount returned
    have counted : count.toNat = (foundEntries device next).length := by
      rw [isCount, UInt32.toNat_ofNat', Nat.mod_eq_of_lt (by omega)]
    by_cases reads : ReadsScanned device next
    · rw [if_pos reads] at returned
      constructor
      · rintro ⟨result, parts, after', got, inside⟩
        rw [returned] at got
        cases got
        rcases inside count rfl with ⟨populated, populates⟩
        refine ⟨fits, fun _ => ?_⟩
        by_contra full
        have sixteenth : count.toNat = 16 := by omega
        rw [populateBlockWrappers_sixteen returned sixteenth] at populates
        cases populates
      · rintro ⟨_, few⟩
        refine ⟨_, _, _, returned, fun _ _ => ?_⟩
        have few := few reads
        rw [foundEntries_of_readsScanned reads] at few
        rcases populateBlockWrappers_ok returned few capacity wrappers with
          ⟨populating, _, populates⟩
        exact ⟨_, populates⟩
    · rw [if_neg reads] at returned
      constructor
      · exact fun _ => ⟨fits, fun all => absurd all reads⟩
      · exact fun _ => ⟨_, _, _, returned, fun _ failed => by cases failed⟩
  · have panics := getPartitions_overflows accepted (by rw [sixteen]; decide)
      (sixteen.symm ▸ Nat.lt_of_not_le fits)
    constructor
    · rintro ⟨result, parts, after, got, _⟩
      rw [panics] at got
      cases got
    · exact fun ⟨fits', _⟩ => absurd fits' fits

/-! ## Both -/

/-- Both functions handle the table of a disk exactly if it fits. -/
theorem handlesTable_iff_tableFits (device : SectorDevice State)
    (partsOut : List PartitionEntry) (capacity : UInt64) (wrappers : BlockWrappers)
    (state : State) :
    CopiesCounted device partsOut state ∧ PopulatesInside device capacity wrappers state ↔
      TableFits device partsOut.length state := by
  rcases read : readHeader device state with ⟨error | found, next⟩
  · have rejected := getPartitions_of_rejected read
    constructor
    · intro _ next' accepted
      rw [read] at accepted
      cases accepted
    · intro _
      have absent : ¬PresentsTable device state := by
        rintro ⟨next', accepted, _⟩
        rw [read] at accepted
        cases accepted
      exact ⟨⟨_, _, _, rejected partsOut, rfl, .inl absent⟩, _, _, _, rejected _,
        fun _ failed => by cases failed⟩
  · have accepted := read
    rw [readHeader_ok read] at accepted
    have only : TableFits device partsOut.length state ↔
        (foundEntries device next).length ≤ min partsOut.length 16 ∧
          (ReadsScanned device next →
            (foundEntries device next).length ≤ 15 ∧ NoneBehindCount device.content) := by
      constructor
      · exact fun fits => fits next accepted
      · intro fits next' accepted'
        rw [accepted] at accepted'
        cases accepted'
        exact fits
    rw [only, populatesInside_iff accepted, Nat.le_min]
    constructor
    · rintro ⟨copies, few, fewer⟩
      rw [copiesCounted_iff accepted (by omega)] at copies
      exact ⟨⟨copies.1, few⟩, fun reads => ⟨fewer reads, copies.2 reads⟩⟩
    · rintro ⟨⟨fits, few⟩, whenRead⟩
      rw [copiesCounted_iff accepted (by omega)]
      exact ⟨⟨fits, fun reads => (whenRead reads).2⟩, few, fun reads => (whenRead reads).1⟩

/-! ## Crowded tables -/

theorem readable_reliable (content : UInt64 → Sector) (sectors : Nat) (lba : UInt64) :
    readable (.reliable content) sectors lba () = sectors := by
  induction sectors generalizing lba with
  | zero => rfl
  | succ sectors induction =>
    rw [readable]
    exact congrArg (· + 1) (induction (lba + 1))

theorem used_of_mem_slotsFrom {content : UInt64 → Sector}
    (used : ∀ lba, ∀ entry ∈ parts (content lba), entry.isUsed = true) (lba : UInt64)
    (sectors : Nat) : ∀ entry ∈ slotsFrom content lba sectors, entry.isUsed = true := by
  induction sectors generalizing lba with
  | zero => simp [slotsFrom]
  | succ sectors induction =>
    intro entry member
    rcases List.mem_append.mp member with here | behind
    · exact used lba entry here
    · exact induction (lba + 1) entry behind

theorem isUsed_ofSector {data : Sector} {offset : UInt64} (byte : data.bytes (offset + 16) ≠ 0) :
    (PartitionEntry.ofSector data offset).isUsed = true := by
  rw [PartitionEntry.isUsed, bne_iff_ne]
  intro noGuid
  have first := congrArg (·[0]) noGuid
  rw [PartitionEntry.noGuid, PartitionEntry.ofSector] at first
  simp only [Vector.getElem_ofFn, Vector.getElem_replicate] at first
  apply byte
  have none : UInt64.ofNat 0 = 0 := rfl
  rwa [none, UInt64.add_zero] at first

def crowdedWords (firstPartLba partCount : UInt64) : List UInt64 :=
  [0x5452415020494645, 0, 1, 0, 0, 34, 0, 0, 0, firstPartLba, partCount, 0, 0, 0, 0, 0] ++
    [0, 0, 1, 0, 0, 0, 0, 0, 0, 0, 0, 0, 0, 0, 0, 0] ++
    [0, 0, 1, 0, 0, 0, 0, 0, 0, 0, 0, 0, 0, 0, 0, 0] ++ [0, 0, 1]

def crowdedDisk (firstPartLba partCount : UInt64) : SectorDevice Unit :=
  .reliable fun _ => wordSector (crowdedWords firstPartLba partCount)

section

variable (firstPartLba partCount : UInt64)

theorem bytes_crowded : (wordSector (crowdedWords firstPartLba partCount)).bytes =
    ByteMemory.ofWords (crowdedWords firstPartLba partCount) :=
  bytes_wordSector (by simp [crowdedWords])

theorem header_crowdedDisk :
    header (crowdedDisk firstPartLba partCount).content =
      ⟨0x5452415020494645, 34, firstPartLba, partCount.toUInt32⟩ := by
  have word := fun index inside =>
    @ByteMemory.readUInt64_ofWords index (crowdedWords firstPartLba partCount) inside
  have half := @ByteMemory.readUInt32_ofWords 10 (crowdedWords firstPartLba partCount) (by decide)
  change Header.ofSector (wordSector _) = _
  rw [Header.ofSector, bytes_crowded]
  exact congr (congr (congr (congrArg Header.mk (word 0 (by decide))) (word 5 (by decide)))
    (word 9 (by decide))) half

theorem crowdedDisk_accepted :
    readHeader (crowdedDisk firstPartLba partCount) () =
      (.ok (header (crowdedDisk firstPartLba partCount).content), ()) := by
  have read : (crowdedDisk firstPartLba partCount).fails 1 () = (false, ()) := rfl
  apply readHeader_eq read
  · rw [header_crowdedDisk]
  · rw [header_crowdedDisk]
    exact UInt64.le_refl 34

theorem crowdedDisk_readsScanned : ReadsScanned (crowdedDisk firstPartLba partCount) () :=
  readable_reliable _ _ _

theorem parts_crowded_used :
    ∀ entry ∈ parts (wordSector (crowdedWords firstPartLba partCount)), entry.isUsed = true := by
  intro entry member
  rcases List.mem_map.mp member with ⟨offset, isOffset, rfl⟩
  apply isUsed_ofSector
  rw [bytes_crowded]
  revert offset
  simp [ByteMemory.ofWords, crowdedWords]

theorem usedEntries_crowdedDisk :
    usedEntries (crowdedDisk firstPartLba partCount).content =
      slotsFrom (crowdedDisk firstPartLba partCount).content firstPartLba
        (header (crowdedDisk firstPartLba partCount).content).scannedSectors := by
  rw [usedEntries, List.filter_eq_self.mpr]
  · rw [header_crowdedDisk]
  · exact used_of_mem_slotsFrom (fun _ => parts_crowded_used firstPartLba partCount) _ _

theorem length_found_crowdedDisk : (foundEntries (crowdedDisk firstPartLba partCount) ()).length =
      4 * (header (crowdedDisk firstPartLba partCount).content).scannedSectors := by
  rw [foundEntries_of_readsScanned (crowdedDisk_readsScanned firstPartLba partCount),
    usedEntries_crowdedDisk, length_slotsFrom]

end

/-- With sixteen used entries the index for the last wrapper is 16, and with twenty the
output of `get_partitions` is too short. Of a table with one slot, four entries are
returned. -/
theorem not_handlesTable_crowded :
    ¬PopulatesInside (crowdedDisk 30 16) 8192 ⟨Vector.replicate 16 none, 0⟩ () ∧
      getPartitions (crowdedDisk 29 20) (List.replicate 16 .zeroed) () = .error .panicked ∧
      ¬CopiesCounted (crowdedDisk 33 1) (List.replicate 16 .zeroed) () := by
  have found : ∀ firstPartLba partCount : UInt64,
      (foundEntries (crowdedDisk firstPartLba partCount) ()).length =
        4 * (⟨0x5452415020494645, 34, firstPartLba, partCount.toUInt32⟩ :
          Header).scannedSectors := by
    intro firstPartLba partCount
    rw [length_found_crowdedDisk, header_crowdedDisk]
  refine ⟨?_, ?_, ?_⟩
  · rw [populatesInside_iff (crowdedDisk_accepted 30 16), found]
    intro inside
    exact absurd (inside.2 (crowdedDisk_readsScanned 30 16)) (by decide)
  · apply getPartitions_overflows (crowdedDisk_accepted 29 20) (by simp)
    rw [found, List.length_replicate]
    decide
  · rw [copiesCounted_iff (crowdedDisk_accepted 33 1) (by rw [found]; decide)]
    intro copies
    have none := copies.2 (crowdedDisk_readsScanned 33 1)
    have same := congrArg List.length ((usedEntries_eq_countedEntries_iff _).mpr none)
    have four := found 33 1
    rw [foundEntries_of_readsScanned (crowdedDisk_readsScanned 33 1), same] at four
    have one : (countedEntries (crowdedDisk 33 1).content).length ≤ 1 := by
      rw [countedEntries, header_crowdedDisk]
      exact Nat.le_trans (List.length_filter_le _ _) (List.length_take_le _ _)
    rw [four] at one
    exact absurd one (by decide)

end HypervisorFirmware.Efi
