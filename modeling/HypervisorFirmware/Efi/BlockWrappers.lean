import HypervisorFirmware.Foundation.Selection
import HypervisorFirmware.Part.PartitionTable

/-! # Block devices for the partitions

`efi/block.rs` makes a block device for each used entry of the partition table, and one
for the whole disk. The device at `efi_part_id` is the one to boot from; it should
describe the partition that `find_efi_partition` has found. -/

namespace HypervisorFirmware.Efi

open Fat (SectorDevice Sector)
open HypervisorFirmware.Part

/-! ## The model -/

structure HardDiskDevicePath where
  partitionNumber : UInt32
  partitionStart : UInt64
  partitionSize : UInt64
  partitionSignature : Vector UInt8 16
  deriving DecidableEq

structure BlockWrapper where
  lastBlock : UInt64
  startLba : UInt64
  hardDisk : HardDiskDevicePath
  deriving DecidableEq

def BlockWrapper.new (capacity : UInt64) (partitionNumber : UInt32) (startLba lastLba : UInt64)
    (uuid : Vector UInt8 16) : BlockWrapper where
  lastBlock := capacity - 1
  startLba := startLba
  hardDisk :=
    { partitionNumber
      partitionStart := startLba
      partitionSize := lastLba - startLba + 1
      partitionSignature := uuid }

def BlockWrapper.lastLba (wrapper : BlockWrapper) : UInt64 :=
  wrapper.hardDisk.partitionStart + wrapper.hardDisk.partitionSize - 1

@[simp] theorem BlockWrapper.lastLba_new (capacity : UInt64) (partitionNumber : UInt32)
    (startLba lastLba : UInt64) (uuid : Vector UInt8 16) :
    (new capacity partitionNumber startLba lastLba uuid).lastLba = lastLba := by
  change startLba + (lastLba - startLba + 1) - 1 = lastLba
  rw [← UInt64.add_assoc, UInt64.add_sub_cancel, UInt64.add_comm, UInt64.sub_add_cancel]

structure BlockWrappers where
  wrappers : Vector (Option BlockWrapper) 16
  count : Nat

structure Populating where
  wrappers : Vector (Option BlockWrapper) 16
  lastLba : UInt64
  efiPartId : Option UInt32

def addPartition (capacity : UInt64) (parts : List PartitionEntry) (populating : Populating)
    (i : Nat) : Exec Populating :=
  match parts[i]? with
  | none => .error .panicked
  | some p =>
    if i + 1 < 16 then
      .ok
        { wrappers := populating.wrappers.setIfInBounds (i + 1)
            (some (.new capacity (UInt32.ofNat (i + 1)) p.firstLba p.lastLba p.guid))
          lastLba := if populating.lastLba < p.lastLba then p.lastLba else populating.lastLba
          efiPartId := if p.isEfiPartition then some (UInt32.ofNat (i + 1))
            else populating.efiPartId }
    else .error .panicked

def populateBlockWrappers {State : Type} (device : SectorDevice State) (capacity : UInt64)
    (wrappers : BlockWrappers) (state : State) :
    Exec ((Option UInt32 × BlockWrappers) × State) := do
  let ((result, parts), state) ← getPartitions device (List.replicate 16 .zeroed) state
  match result with
  | .error _ => .error .panicked
  | .ok partCount =>
    let populating ← (List.range partCount.toNat).foldlM (addPartition capacity parts)
      ⟨wrappers.wrappers, 0, some 0⟩
    return ((populating.efiPartId,
      { wrappers := populating.wrappers.setIfInBounds 0
          (some (.new capacity 0 0 populating.lastLba PartitionEntry.noGuid))
        count := partCount.toNat + 1 }), state)

/-! ## What the wrappers describe -/

def greatestLba (entries : List PartitionEntry) : UInt64 :=
  entries.foldl (fun last p => if last < p.lastLba then p.lastLba else last) 0

structure Populated (capacity : UInt64) (entries : List PartitionEntry)
    (populating : Populating) : Prop where
  wrappers : ∀ index entry, entries[index]? = some entry →
    populating.wrappers[index + 1]? = some (some
      (.new capacity (UInt32.ofNat (index + 1)) entry.firstLba entry.lastLba entry.guid))
  lastLba : populating.lastLba = greatestLba entries
  efiPartId : populating.efiPartId =
    some (UInt32.ofNat (Selection.lastMatch PartitionEntry.isEfiPartition entries))

variable {capacity : UInt64}

variable {entries : List PartitionEntry} {boot boot' : PartitionEntry}

theorem Populated.addPartition {populating : Populating}
    (populated : Populated capacity entries populating) (entry : PartitionEntry)
    (rest : List PartitionEntry) (room : entries.length + 1 < 16) :
    ∃ next, Efi.addPartition capacity (entries ++ entry :: rest) populating entries.length =
        .ok next ∧ Populated capacity (entries ++ [entry]) next := by
  have here : (entries ++ entry :: rest)[entries.length]? = some entry := by simp
  rw [Efi.addPartition, here]
  simp only [room, if_true]
  refine ⟨_, rfl, ?_, ?_, ?_⟩
  · intro index other found
    by_cases isLast : index = entries.length
    · subst isLast
      have equal : entry = other := by simpa using found
      subst equal
      simp [room]
    · have earlier : entries[index]? = some other := by
        have inside := List.getElem?_eq_some_iff.mp found
        rcases inside with ⟨bound, _⟩
        rw [List.length_append, List.length_singleton] at bound
        rwa [List.getElem?_append_left (by omega)] at found
      have different : entries.length + 1 ≠ index + 1 := by omega
      rw [Vector.getElem?_setIfInBounds_ne different]
      exact populated.wrappers index other earlier
  · simp [greatestLba, populated.lastLba]
  · rw [Selection.lastMatch_concat]
    by_cases isEfi : entry.isEfiPartition = true
    · simp [isEfi]
    · simp [isEfi, populated.efiPartId]

theorem populated_foldlM (rest : List PartitionEntry)
    (few : entries.length ≤ 15) (wrappers : Vector (Option BlockWrapper) 16) :
    ∃ populating, (List.range entries.length).foldlM
        (addPartition capacity (entries ++ rest)) ⟨wrappers, 0, some 0⟩ = .ok populating ∧
      Populated capacity entries populating := by
  induction entries using List.reverseRecOn generalizing rest with
  | nil => exact ⟨_, rfl, by simp, rfl, rfl⟩
  | append_singleton entries last induction =>
    rw [List.length_append, List.length_singleton] at few ⊢
    rcases induction (last :: rest) (by omega) with ⟨populating, looped, populated⟩
    rcases populated.addPartition last rest (by omega) with ⟨next, added, nextPopulated⟩
    refine ⟨next, ?_, nextPopulated⟩
    rw [List.range_succ, List.foldlM_append, List.append_assoc, List.singleton_append, looped,
      Exec.ok_bind, List.foldlM_cons, added]
    rfl

variable {State : Type} {device : SectorDevice State}

theorem populateBlockWrappers_ok {state next : State} {count : UInt32} {parts : List PartitionEntry}
    (got : getPartitions device (List.replicate 16 .zeroed) state = .ok ((.ok count, parts), next))
    (few : (usedEntries device.content).length ≤ 15) (capacity : UInt64)
    (wrappers : BlockWrappers) :
    ∃ populating, Populated capacity (usedEntries device.content) populating ∧
      populateBlockWrappers device capacity wrappers state =
        .ok ((populating.efiPartId,
          { wrappers := populating.wrappers.setIfInBounds 0
              (some (.new capacity 0 0 populating.lastLba PartitionEntry.noGuid))
            count := count.toNat + 1 }), next) := by
  rcases getPartitions_ok (by simp) got with ⟨isCount, ⟨rest, entries⟩, _⟩
  simp only at isCount entries
  have counted : count.toNat = (usedEntries device.content).length := by
    rw [isCount, UInt32.toNat_ofNat', Nat.mod_eq_of_lt (by omega)]
  rcases populated_foldlM rest few wrappers.wrappers with ⟨populating, looped, populated⟩
  refine ⟨populating, populated, ?_⟩
  rw [populateBlockWrappers, got]
  simp only [Exec.ok_bind, counted, entries, looped, Exec.pure_eq_ok]

/-- `populate_block_wrappers` selects the wrapper with this number, and that wrapper
describes the partition from `start` to `last`. -/
def SelectsPartition (device : SectorDevice State) (capacity : UInt64)
    (wrappers : BlockWrappers) (state : State) (start last : UInt64) (id : UInt32) : Prop :=
  ∃ efiPartId populated next wrapper,
    populateBlockWrappers device capacity wrappers state =
      .ok ((some efiPartId, populated), next) ∧
    populated.wrappers[efiPartId.toNat]? = some (some wrapper) ∧
    efiPartId = id ∧ wrapper.startLba = start ∧ wrapper.lastLba = last

theorem selectsPartition_of_returned {state next : State} {wrappers populated : BlockWrappers}
    {efiPartId : UInt32} {wrapper : BlockWrapper}
    (returned : populateBlockWrappers device capacity wrappers state =
      .ok ((some efiPartId, populated), next))
    (selected : populated.wrappers[efiPartId.toNat]? = some (some wrapper))
    (start last : UInt64) (id : UInt32) :
    SelectsPartition device capacity wrappers state start last id ↔
      efiPartId = id ∧ wrapper.startLba = start ∧ wrapper.lastLba = last := by
  constructor
  · rintro ⟨efiPartId', populated', next', wrapper', returned', selected', described⟩
    simp only [returned, Except.ok.injEq, Prod.mk.injEq, Option.some.injEq] at returned'
    rcases returned' with ⟨⟨rfl, rfl⟩, rfl⟩
    rw [selected] at selected'
    cases selected'
    exact described
  · intro described
    exact ⟨efiPartId, populated, next, wrapper, returned, selected, described⟩

structure LastEfi (entries : List PartitionEntry) (number : Nat) (boot : PartitionEntry) :
    Prop where
  found : entries[number]? = some boot
  isEfi : boot.isEfiPartition = true
  later : ∀ entry ∈ entries.drop (number + 1), entry.isEfiPartition = false

theorem lastMatch_eq_succ_iff_lastEfi (entries : List PartitionEntry) (number : Nat) :
    Selection.lastMatch PartitionEntry.isEfiPartition entries = number + 1 ↔
      ∃ boot, LastEfi entries number boot := by
  rw [Selection.lastMatch_eq_succ_iff]
  constructor
  · rintro ⟨boot, found, isEfi, later⟩
    exact ⟨boot, found, isEfi, later⟩
  · rintro ⟨boot, found, isEfi, later⟩
    exact ⟨boot, found, isEfi, later⟩

theorem LastEfi.unique {number number' : Nat} (last : LastEfi entries number boot)
    (last' : LastEfi entries number' boot') : number = number' ∧ boot = boot' := by
  have first := (lastMatch_eq_succ_iff_lastEfi entries number).mpr ⟨boot, last⟩
  have second := (lastMatch_eq_succ_iff_lastEfi entries number').mpr ⟨boot', last'⟩
  have same : number = number' := by omega
  have found := last.found
  rw [same, last'.found] at found
  exact ⟨same, (Option.some.inj found).symm⟩

section

variable {state next : State} {count : UInt32} {parts : List PartitionEntry}
  (got : getPartitions device (List.replicate 16 .zeroed) state =
    .ok ((.ok count, parts), next))
  (few : (usedEntries device.content).length ≤ 15)

include got few

theorem selectsPartition_iff_of_lastEfi {number : Nat} {boot : PartitionEntry}
    (isLast : LastEfi (usedEntries device.content) number boot) (wrappers : BlockWrappers)
    (start last : UInt64) (id : UInt32) :
    SelectsPartition device capacity wrappers state start last id ↔
      UInt32.ofNat (number + 1) = id ∧ boot.firstLba = start ∧ boot.lastLba = last := by
  rcases populateBlockWrappers_ok got few capacity wrappers with
    ⟨populating, populated, returned⟩
  have inside : number < (usedEntries device.content).length :=
    (List.getElem?_eq_some_iff.mp isLast.found).1
  have isId := populated.efiPartId
  rw [(lastMatch_eq_succ_iff_lastEfi _ number).mpr ⟨boot, isLast⟩] at isId
  rw [isId] at returned
  have index : (UInt32.ofNat (number + 1)).toNat = number + 1 := by
    rw [UInt32.toNat_ofNat', Nat.mod_eq_of_lt (by omega)]
  have selected : (populating.wrappers.setIfInBounds 0
      (some (.new capacity 0 0 populating.lastLba PartitionEntry.noGuid)))[
        (UInt32.ofNat (number + 1)).toNat]? =
      some (some (.new capacity (UInt32.ofNat (number + 1)) boot.firstLba boot.lastLba
        boot.guid)) := by
    rw [index, Vector.getElem?_setIfInBounds_ne (by omega)]
    exact populated.wrappers number boot isLast.found
  rw [selectsPartition_of_returned returned selected, BlockWrapper.lastLba_new]
  rfl

theorem selectsPartition_iff_of_noEfi
    (noEfi : ∀ entry ∈ usedEntries device.content, entry.isEfiPartition = false)
    (wrappers : BlockWrappers) (start last : UInt64) (id : UInt32) :
    SelectsPartition device capacity wrappers state start last id ↔
      0 = id ∧ 0 = start ∧ greatestLba (usedEntries device.content) = last := by
  rcases populateBlockWrappers_ok got few capacity wrappers with
    ⟨populating, populated, returned⟩
  have isId := populated.efiPartId
  rw [(Selection.lastMatch_eq_zero_iff _ _).mpr noEfi] at isId
  rw [isId] at returned
  have selected : (populating.wrappers.setIfInBounds 0
      (some (.new capacity 0 0 populating.lastLba PartitionEntry.noGuid)))[
        (UInt32.ofNat 0).toNat]? =
      some (some (.new capacity 0 0 populating.lastLba PartitionEntry.noGuid)) := by
    simp
  rw [selectsPartition_of_returned returned selected, BlockWrapper.lastLba_new, populated.lastLba]
  rfl

end

/-! ## The two scans -/

theorem FirstEfi.unique {slot slot' : Nat} (first : FirstEfi entries slot boot)
    (first' : FirstEfi entries slot' boot') : slot = slot' ∧ boot = boot' := by
  have notBefore : ∀ {slot slot' : Nat} {boot boot' : PartitionEntry},
      FirstEfi entries slot boot → FirstEfi entries slot' boot' → ¬slot < slot' := by
    intro slot slot' boot boot' first first' before
    have member : boot ∈ entries.take slot' := by
      apply List.mem_of_getElem?
      rw [List.getElem?_take_of_lt before]
      exact first.found
    have notEfi := first'.earlier boot member
    rw [first.isEfi] at notEfi
    cases notEfi
  have same : slot = slot' := by
    have left := notBefore first first'
    have right := notBefore first' first
    omega
  have found := first.found
  rw [same, first'.found] at found
  exact ⟨same, (Option.some.inj found).symm⟩

/-- The system partition with the lowest slot has its number among the used entries too:
counted without the empty slots, the entry with that number is the last system partition
and has the same extent. (Slot number `2^32` is counted as zero, the number of the whole
disk.) -/
def NumberedAlike (used : List PartitionEntry) (slot : Nat) (boot : PartitionEntry) : Prop :=
  (∃ entry, LastEfi used slot entry ∧ entry.firstLba = boot.firstLba ∧
    entry.lastLba = boot.lastLba) ∨
  (slot + 1 = 2 ^ 32 ∧ (∀ entry ∈ used, entry.isEfiPartition = false) ∧
    boot.firstLba = 0 ∧ boot.lastLba = greatestLba used)

def BootNumbered (content : UInt64 → Sector) : Prop :=
  ∃ slot boot, FirstEfi (slots content) slot boot ∧
    NumberedAlike (usedEntries content) slot boot

theorem bootNumbered_of_no_gap {content : UInt64 → Sector} {slot : Nat}
    (first : FirstEfi (slots content) slot boot)
    (scanned : slot < 4 * (header content).scannedSectors)
    (noGap : ∀ entry ∈ (slots content).take (slot + 1), entry.isUsed = true)
    (single : ∀ entry ∈ (slots content).drop (slot + 1), entry.isUsed = true →
      entry.isEfiPartition = false) :
    BootNumbered content := by
  have split := slotsFrom_eq_take content (header content).firstPartLba
    (header content).scannedSectors_le
  have inside : slot < (slots content).length := (List.getElem?_eq_some_iff.mp first.found).1
  -- The scanned slots: those up to the system partition, all of them used, and the rest.
  have used : usedEntries content = (slots content).take (slot + 1) ++
      (((slots content).take (4 * (header content).scannedSectors)).drop (slot + 1)).filter
        PartitionEntry.isUsed := by
    have ahead : ((slots content).take (4 * (header content).scannedSectors)).take (slot + 1) =
        (slots content).take (slot + 1) := by
      rw [List.take_take, Nat.min_eq_left scanned]
    have whole := List.take_append_drop (slot + 1)
      ((slots content).take (4 * (header content).scannedSectors))
    rw [ahead] at whole
    rw [usedEntries, split]
    change ((slots content).take _).filter _ = _
    conv_lhs => rw [← whole, List.filter_append, List.filter_eq_self.mpr noGap]
  have length : ((slots content).take (slot + 1)).length = slot + 1 := by
    rw [List.length_take, Nat.min_eq_left inside]
  refine ⟨slot, boot, first, .inl ⟨boot, ⟨?_, first.isEfi, ?_⟩, rfl, rfl⟩⟩
  · rw [used, List.getElem?_append_left (by omega), List.getElem?_take_of_lt (by omega)]
    exact first.found
  · intro entry member
    rw [used, List.drop_left' length, List.mem_filter] at member
    refine single entry ?_ member.2
    rw [List.drop_take] at member
    exact List.mem_of_mem_take member.1

/-- Both scans agree on the boot partition exactly if it has the same number with and
without the empty slots. -/
theorem selectsPartition_iff_bootNumbered {device : SectorDevice State}
    {findState findNext state next : State} {start last : UInt64} {id count : UInt32}
    {parts : List PartitionEntry}
    (found : findEfiPartition device findState = (.ok (start, last, id), findNext))
    (got : getPartitions device (List.replicate 16 .zeroed) state =
      .ok ((.ok count, parts), next))
    (few : (usedEntries device.content).length ≤ 15) (capacity : UInt64)
    (wrappers : BlockWrappers) :
    SelectsPartition device capacity wrappers state start last id ↔
      BootNumbered device.content := by
  rcases findEfiPartition_ok found with ⟨slot, boot, first, rfl, rfl, rfl, small⟩
  have reduced : BootNumbered device.content ↔
      NumberedAlike (usedEntries device.content) slot boot := by
    constructor
    · rintro ⟨slot', boot', first', alike⟩
      rcases FirstEfi.unique first first' with ⟨rfl, rfl⟩
      exact alike
    · intro alike
      exact ⟨slot, boot, first, alike⟩
  rw [reduced, NumberedAlike]
  cases number : Selection.lastMatch PartitionEntry.isEfiPartition
      (usedEntries device.content) with
  | zero =>
    have noEfi := (Selection.lastMatch_eq_zero_iff _ _).mp number
    have wraps : 0 = UInt32.ofNat (slot + 1) ↔ slot + 1 = 2 ^ 32 := by
      rw [← UInt32.toNat_inj, UInt32.toNat_ofNat']
      change 0 = _ ↔ _
      omega
    rw [selectsPartition_iff_of_noEfi got few noEfi, wraps]
    constructor
    · rintro ⟨isId, isStart, isLast⟩
      exact .inr ⟨isId, noEfi, isStart.symm, isLast.symm⟩
    · rintro (⟨entry, isLast, _⟩ | ⟨isId, _, isStart, isLast⟩)
      · have some := (lastMatch_eq_succ_iff_lastEfi _ slot).mpr ⟨entry, isLast⟩
        omega
      · exact ⟨isId, isStart.symm, isLast.symm⟩
  | succ number' =>
    rcases (lastMatch_eq_succ_iff_lastEfi _ number').mp number with ⟨entry, isLast⟩
    have inside : number' < (usedEntries device.content).length :=
      (List.getElem?_eq_some_iff.mp isLast.found).1
    have same : UInt32.ofNat (number' + 1) = UInt32.ofNat (slot + 1) ↔ number' = slot := by
      rw [← UInt32.toNat_inj, UInt32.toNat_ofNat', UInt32.toNat_ofNat']
      omega
    rw [selectsPartition_iff_of_lastEfi got few isLast, same]
    constructor
    · rintro ⟨rfl, isStart, isEnd⟩
      exact .inl ⟨entry, isLast, isStart, isEnd⟩
    · rintro (⟨entry', isLast', isStart, isEnd⟩ | ⟨_, noEfi, _⟩)
      · rcases isLast.unique isLast' with ⟨rfl, rfl⟩
        exact ⟨rfl, isStart, isEnd⟩
      · have none := (Selection.lastMatch_eq_zero_iff _ _).mpr noEfi
        omega

/-! ## Two disks -/

def systemEntry : PartitionEntry :=
  { typeGuid := PartitionEntry.efiTypeGuid
    guid := Vector.replicate 16 1
    firstLba := 2048
    lastLba := 4095 }

theorem lastEfi_systemEntry : LastEfi [systemEntry] 0 systemEntry := ⟨rfl, by decide, by simp⟩

theorem selectsPartition_iff_bootNumbered_first_slot :
    SelectsPartition (diskOf (systemPartition 2048 4095)) 8192 ⟨Vector.replicate 16 none, 0⟩ ()
      2048 4095 1 := by
  have found : findEfiPartition (diskOf (systemPartition 2048 4095)) () =
      (.ok (2048, 4095, 1), ()) := by decide +kernel
  have got : getPartitions (diskOf (systemPartition 2048 4095))
      (List.replicate 16 .zeroed) () =
        .ok ((.ok 1, systemEntry :: List.replicate 15 .zeroed), ()) := by decide +kernel
  have used : usedEntries (diskOf (systemPartition 2048 4095)).content = [systemEntry] :=
    usedEntries_eq_take (by simp) got
  have first : (slots (diskOf (systemPartition 2048 4095)).content)[0]? = some systemEntry := by
    decide +kernel
  apply (selectsPartition_iff_bootNumbered found got (by rw [used]; decide) _ _).mpr
  refine ⟨0, systemEntry, ⟨first, by decide, by simp⟩, .inl ⟨systemEntry, ?_, rfl, rfl⟩⟩
  rw [used]
  exact lastEfi_systemEntry

def gapDisk : SectorDevice Unit := diskOf (List.replicate 16 0 ++ systemPartition 2048 4095)

/-- Behind an empty slot the system partition has number 2 for `find_efi_partition`, but
it is the first used entry. -/
theorem not_selectsPartition_behind_gap :
    findEfiPartition gapDisk () = (.ok (2048, 4095, 2), ()) ∧
      getPartitions gapDisk (List.replicate 16 .zeroed) () =
        .ok ((.ok 1, systemEntry :: List.replicate 15 .zeroed), ()) ∧
      ¬SelectsPartition gapDisk 8192 ⟨Vector.replicate 16 none, 0⟩ () 2048 4095 2 := by
  have found : findEfiPartition gapDisk () = (.ok (2048, 4095, 2), ()) := by decide +kernel
  have got : getPartitions gapDisk (List.replicate 16 .zeroed) () =
      .ok ((.ok 1, systemEntry :: List.replicate 15 .zeroed), ()) := by decide +kernel
  have used : usedEntries gapDisk.content = [systemEntry] := usedEntries_eq_take (by simp) got
  refine ⟨found, got, ?_⟩
  rw [selectsPartition_iff_of_lastEfi got (by rw [used]; decide)
    (used.symm ▸ lastEfi_systemEntry)]
  intro agree
  exact absurd agree.1 (by decide)

end HypervisorFirmware.Efi
