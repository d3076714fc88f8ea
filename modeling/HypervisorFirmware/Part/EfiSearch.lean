import HypervisorFirmware.Part.PartitionTable

/-! # The search for the EFI system partition

`find_efi_partition` counts the slots of the table in one variable across the sectors.
The count gives the number of the partition and ends the search; the table may also end
first, and any sector on the way may be unreadable. -/

namespace HypervisorFirmware.Part

open Fat (Sector SectorDevice)

variable {State : Type}

/-! ## The entries of one sector -/

def NoEfi (entries : List PartitionEntry) : Prop :=
  ∀ entry ∈ entries, entry.isEfiPartition = false

section

variable {partCount checked : UInt32} {remaining : Nat}

theorem counted_succ (counted : checked.toNat + (remaining + 1) = partCount.toNat) :
    (checked + 1).toNat = checked.toNat + 1 ∧ (checked + 1 = partCount ↔ remaining = 0) := by
  have bound := partCount.toNat_lt
  have next : (checked + 1).toNat = checked.toNat + 1 := by
    rw [UInt32.toNat_add]
    change (checked.toNat + 1) % 2 ^ 32 = checked.toNat + 1
    omega
  refine ⟨next, ?_⟩
  rw [← UInt32.toNat_inj, next]
  omega

variable {entries : List PartitionEntry}

theorem findEfiEntry_pass
    (counted : checked.toNat + remaining = partCount.toNat) (none : NoEfi entries)
    (fewer : entries.length < remaining) :
    ∃ checked' : UInt32, findEfiEntry partCount entries checked = .inr checked' ∧
      checked'.toNat = checked.toNat + entries.length := by
  induction entries generalizing checked remaining with
  | nil => exact ⟨checked, rfl, rfl⟩
  | cons entry rest induction =>
    rw [List.length_cons] at fewer
    rcases Nat.exists_eq_add_one_of_ne_zero (Nat.ne_of_gt (Nat.zero_lt_of_lt fewer)) with
      ⟨left, rfl⟩
    rcases counted_succ counted with ⟨next, reached⟩
    have countedNext : (checked + 1).toNat + left = partCount.toNat := by omega
    rcases induction countedNext (fun other member => none other (.tail _ member))
      (by omega) with ⟨checked', passed, count⟩
    refine ⟨checked', ?_, ?_⟩
    · rw [findEfiEntry, none entry (.head _), if_neg Bool.false_ne_true,
        if_neg (by rw [reached]; omega), passed]
    · rw [count, next, List.length_cons]
      omega

theorem findEfiEntry_exceeds (counted : checked.toNat + remaining = partCount.toNat)
    (none : NoEfi (entries.take remaining)) (positive : 0 < remaining)
    (enough : remaining ≤ entries.length) :
    findEfiEntry partCount entries checked = .inl (.error .exceededPartitionCount) := by
  induction entries generalizing checked remaining with
  | nil => exact absurd enough (Nat.not_le.mpr positive)
  | cons entry rest induction =>
    rcases Nat.exists_eq_add_one_of_ne_zero (Nat.ne_of_gt positive) with ⟨left, rfl⟩
    rcases counted_succ counted with ⟨next, reached⟩
    rw [List.take_succ_cons] at none
    rw [findEfiEntry, none entry (.head _), if_neg Bool.false_ne_true]
    by_cases last : left = 0
    · rw [if_pos (reached.mpr last)]
    · rw [if_neg (mt reached.mp last)]
      exact induction (by omega) (fun other member => none other (.tail _ member))
        (Nat.pos_of_ne_zero last) (Nat.le_of_succ_le_succ enough)

theorem findEfiEntry_found {slot : Nat} {boot : PartitionEntry}
    (counted : checked.toNat + remaining = partCount.toNat)
    (first : FirstEfi entries slot boot) (inside : slot < remaining) :
    findEfiEntry partCount entries checked =
      .inl (.ok (boot.firstLba, boot.lastLba, UInt32.ofNat (checked.toNat + slot + 1))) := by
  induction entries generalizing checked remaining slot with
  | nil => cases first.found
  | cons entry rest induction =>
    rw [findEfiEntry]
    cases slot with
    | zero =>
      cases first.found
      rw [first.isEfi, if_pos rfl, Nat.add_zero, UInt32.ofNat_add, UInt32.ofNat_toNat]
      rfl
    | succ slot =>
      rcases Nat.exists_eq_add_one_of_ne_zero (Nat.ne_of_gt (Nat.zero_lt_of_lt inside)) with
        ⟨left, rfl⟩
      rcases counted_succ counted with ⟨next, reached⟩
      have earlier := first.earlier
      rw [List.take_succ_cons] at earlier
      have behind : FirstEfi rest slot boot :=
        ⟨first.found, first.isEfi, fun other member => earlier other (.tail _ member)⟩
      have countedNext : (checked + 1).toNat + left = partCount.toNat := by omega
      rw [earlier entry (.head _), if_neg Bool.false_ne_true,
        if_neg (by rw [reached]; omega), induction countedNext behind (by omega), next]
      congr 5
      omega

end

/-! ## The sectors of the table -/

/-- How the search ends when there are `remaining` slots left to count, after `checked`
of them: the sectors that decide it and the result. -/
inductive Decision (remaining checked : Nat) (entries : List PartitionEntry) :
    (sectors : Nat) → Except Error (UInt64 × UInt64 × UInt32) → Prop
  | found {slot : Nat} {boot : PartitionEntry} (first : FirstEfi entries slot boot)
      (inside : slot < remaining) :
      Decision remaining checked entries (slot / 4 + 1)
        (.ok (boot.firstLba, boot.lastLba, UInt32.ofNat (checked + slot + 1)))
  | exceeded (none : NoEfi (entries.take remaining)) (enough : remaining ≤ entries.length) :
      Decision remaining checked entries ((remaining + 3) / 4) (.error .exceededPartitionCount)
  | ended (none : NoEfi entries) (fewer : entries.length < remaining) :
      Decision remaining checked entries (entries.length / 4) (.error .noEfiPartition)

variable {entries more : List PartitionEntry} {deciding remaining : Nat} {partCount : UInt32}
   {result : Except Error (UInt64 × UInt64 × UInt32)} {state : State}

theorem FirstEfi.of_append {slot : Nat}
    {boot : PartitionEntry} (first : FirstEfi (entries ++ more) slot boot)
    (here : slot < entries.length) : FirstEfi entries slot boot := by
  refine ⟨?_, first.isEfi, ?_⟩
  · rw [← first.found, List.getElem?_append_left here]
  · intro entry member
    apply first.earlier
    rwa [List.take_append_of_le_length (Nat.le_of_lt here)]

theorem FirstEfi.of_append_right {slot : Nat}
    {boot : PartitionEntry} (first : FirstEfi (entries ++ more) slot boot)
    (behind : entries.length ≤ slot) :
    NoEfi entries ∧ FirstEfi more (slot - entries.length) boot := by
  have earlier := first.earlier
  rw [List.take_append, List.take_of_length_le behind] at earlier
  refine ⟨fun entry member => earlier entry (List.mem_append_left _ member), ?_, first.isEfi,
    fun entry member => earlier entry (List.mem_append_right _ member)⟩
  rw [← first.found, List.getElem?_append_right behind]

theorem Decision.first_sector {checked : UInt32}
    (four : entries.length = 4) (counted : checked.toNat + remaining = partCount.toNat)
    (positive : 0 < remaining)
    (decision : Decision remaining checked.toNat (entries ++ more) deciding result) :
    (deciding = 1 ∧ findEfiEntry partCount entries checked = .inl result) ∨
      ∃ deciding' checked', deciding = deciding' + 1 ∧ 4 < remaining ∧
        checked'.toNat = checked.toNat + 4 ∧
        findEfiEntry partCount entries checked = .inr checked' ∧
        Decision (remaining - 4) checked'.toNat more deciding' result := by
  have length : (entries ++ more).length = 4 + more.length := by
    rw [List.length_append, four]
  cases decision with
  | @found slot boot first inside =>
    by_cases here : slot < 4
    · left
      refine ⟨by omega, ?_⟩
      exact findEfiEntry_found counted (first.of_append (by omega)) inside
    · right
      rcases first.of_append_right (by omega) with ⟨none, behind⟩
      rcases findEfiEntry_pass counted none (by omega) with ⟨checked', passed, count⟩
      rw [four] at behind count
      refine ⟨(slot - 4) / 4 + 1, checked', by omega, by omega, count, passed, ?_⟩
      have number : checked.toNat + slot + 1 = checked'.toNat + (slot - 4) + 1 := by omega
      rw [number]
      exact .found behind (by omega)
  | exceeded none enough =>
    by_cases here : remaining ≤ 4
    · left
      rw [List.take_append_of_le_length (by omega)] at none
      refine ⟨by omega, ?_⟩
      exact findEfiEntry_exceeds counted none positive (by omega)
    · right
      rw [List.take_append, List.take_of_length_le (by omega), four] at none
      rcases findEfiEntry_pass counted
        (fun entry member => none entry (List.mem_append_left _ member)) (by omega) with
        ⟨checked', passed, count⟩
      rw [four] at count
      refine ⟨(remaining - 4 + 3) / 4, checked', by omega, by omega, count, passed, ?_⟩
      exact .exceeded (fun entry member => none entry (List.mem_append_right _ member)) (by omega)
  | ended none fewer =>
    right
    rcases findEfiEntry_pass counted
      (fun entry member => none entry (List.mem_append_left _ member)) (by omega) with
      ⟨checked', passed, count⟩
    rw [four] at count
    refine ⟨more.length / 4, checked', by omega, by omega, count, passed, ?_⟩
    exact .ended (fun entry member => none entry (List.mem_append_right _ member)) (by omega)

theorem findEfiPartitionFrom_eq {device : SectorDevice State} {checked : UInt32}
    {sectors : Nat} {lba : UInt64}
    (counted : checked.toNat + remaining = partCount.toNat) (positive : 0 < remaining)
    (decision : Decision remaining checked.toNat (slotsFrom device.content lba sectors)
      deciding result) :
    (findEfiPartitionFrom device partCount sectors lba checked state).1 =
      if deciding ≤ readable device sectors lba state then result else .error .blockError := by
  induction sectors generalizing lba checked remaining deciding state with
  | zero =>
    cases decision with
    | found first _ => cases first.found
    | exceeded _ enough => exact absurd enough (Nat.not_le.mpr positive)
    | ended _ _ =>
      rw [length_slotsFrom]
      rfl
  | succ sectors induction =>
    rw [findEfiPartitionFrom, readable, SectorDevice.read]
    rcases decision.first_sector rfl counted positive with
      ⟨rfl, here⟩ | ⟨deciding', checked', rfl, more, count, passed, behind⟩
    · rcases device.fails lba state with ⟨_ | _, after⟩
      · simp [here]
      · simp
    · rcases device.fails lba state with ⟨_ | _, after⟩
      · simp only [passed, Nat.add_le_add_iff_right]
        exact induction (by omega) (by omega) behind
      · simp

/-- On a disk whose header was read in `state`, leaving the device in `next`, the search
returns this result if the sectors that decide it can be read. -/
def SearchReturns (device : SectorDevice State) (state next : State) (deciding : Nat)
    (result : Except Error (UInt64 × UInt64 × UInt32)) : Prop :=
  (findEfiPartition device state).1 =
    if deciding ≤ readable device (header device.content).sectors
        (header device.content).firstPartLba next then result
    else .error .blockError

section

variable {device : SectorDevice State} {next : State}
  (headerRead : device.fails 1 state = (false, next))
  (signature : (header device.content).signature = 0x5452415020494645)
  (usable : 34 ≤ (header device.content).firstUsableLba)

include headerRead signature usable

theorem readHeader_eq : readHeader device state = (.ok (header device.content), next) := by
  have notSmall : ¬(header device.content).firstUsableLba < 34 := UInt64.not_lt.mpr usable
  rw [readHeader, SectorDevice.read, headerRead]
  change (if (header device.content).signature ≠ _ then _ else
    if (header device.content).firstUsableLba < 34 then _ else _) = _
  rw [if_neg (not_not.mpr signature), if_neg notSmall]
  rfl

theorem searchReturns_of_decision (slotted : 1 ≤ (header device.content).partCount)
    (decision : Decision (header device.content).partCount.toNat 0 (slots device.content)
      deciding result) : SearchReturns device state next deciding result := by
  rw [SearchReturns, findEfiPartition, readHeader_eq headerRead signature usable]
  have positive : 0 < (header device.content).partCount.toNat := UInt32.le_iff_toNat_le.mp slotted
  exact findEfiPartitionFrom_eq (Nat.zero_add _) positive decision

end

/-- The search finds the first system partition among the counted slots that the table
holds. Without one, it says whether the count or the table ended. -/
theorem findEfiPartition_exact (device : SectorDevice State) {state next : State}
    (headerRead : device.fails 1 state = (false, next))
    (signature : (header device.content).signature = 0x5452415020494645)
    (usable : 34 ≤ (header device.content).firstUsableLba)
    (slotted : 1 ≤ (header device.content).partCount) :
    let count := (header device.content).partCount.toNat
    let sectors := (header device.content).sectors
    let inspected := (slots device.content).take (min count (4 * sectors))
    (∀ slot boot, FirstEfi inspected slot boot →
      ∃ id : UInt32, id.toNat = slot + 1 ∧
        SearchReturns device state next (slot / 4 + 1)
          (.ok (boot.firstLba, boot.lastLba, id))) ∧
    (NoEfi inspected → count ≤ 4 * sectors →
      SearchReturns device state next ((count + 3) / 4) (.error .exceededPartitionCount)) ∧
    (NoEfi inspected → 4 * sectors < count →
      SearchReturns device state next sectors (.error .noEfiPartition)) := by
  intro count sectors inspected
  have length : (slots device.content).length = 4 * sectors := length_slotsFrom _ _ _
  have bound := (header device.content).partCount.toNat_lt
  refine ⟨?_, ?_, ?_⟩
  · intro slot boot first
    have inside : slot < min count (4 * sectors) := by
      have position := (List.getElem?_eq_some_iff.mp first.found).1
      rw [List.length_take, length] at position
      omega
    have small : slot + 1 < 2 ^ 32 := by omega
    refine ⟨UInt32.ofNat (slot + 1), ?_, ?_⟩
    · rw [UInt32.toNat_ofNat', Nat.mod_eq_of_lt small]
    · apply searchReturns_of_decision headerRead signature usable slotted
      have whole : FirstEfi (slots device.content) slot boot := by
        refine ⟨?_, first.isEfi, ?_⟩
        · rw [← first.found, List.getElem?_take_of_lt inside]
        · intro entry member
          apply first.earlier
          rwa [List.take_take, Nat.min_eq_left (by omega)]
      have decision : Decision count 0 (slots device.content) _ _ :=
        .found whole (by omega)
      rwa [Nat.zero_add] at decision
  · intro none enough
    apply searchReturns_of_decision headerRead signature usable slotted
    have counted : inspected = (slots device.content).take count := by
      change (slots device.content).take (min count (4 * sectors)) = _
      rw [Nat.min_eq_left enough]
    rw [counted] at none
    exact .exceeded none (by omega)
  · intro none fewer
    apply searchReturns_of_decision headerRead signature usable slotted
    have all : inspected = slots device.content := by
      apply List.take_of_length_le
      omega
    rw [all] at none
    have decision : Decision count 0 (slots device.content) _ _ := .ended none (by omega)
    rwa [length, Nat.mul_div_cancel_left _ (by omega)] at decision

/-- The system partition is in the second slot, behind an empty one. -/
theorem findEfiPartition_exact_second_slot :
    ∃ id : UInt32, id.toNat = 2 ∧
      (findEfiPartition (diskOf (List.replicate 16 0 ++ systemPartition 2048 4095)) ()).1 =
        .ok (2048, 4095, id) := by
  have exact := @findEfiPartition_exact _
    (diskOf (List.replicate 16 0 ++ systemPartition 2048 4095)) () () rfl (by decide +kernel)
    (by decide +kernel) (by decide +kernel)
  rcases exact.1 1 ⟨PartitionEntry.efiTypeGuid, Vector.replicate 16 1, 2048, 4095⟩
    ⟨by decide +kernel, by decide, by decide +kernel⟩ with ⟨id, number, returns⟩
  refine ⟨id, number, returns.trans ?_⟩
  rw [if_pos (by decide +kernel)]

end HypervisorFirmware.Part
