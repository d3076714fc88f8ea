import HypervisorFirmware.Fat.Filesystem

/-! # The GUID partition table

`part.rs` reads the partition table of a disk in two ways. `get_partitions` copies the
used entries, and `find_efi_partition` looks for the first EFI system partition. Both
go through the sectors of the table and stop at the partition count of the header, the
one after whole sectors and the other after single entries. -/

namespace HypervisorFirmware.Part

open Fat (Sector SectorDevice)

inductive Error
  | blockError
  | headerNotFound
  | violatesSpecification
  | exceededPartitionCount
  | noEfiPartition
  deriving DecidableEq, Repr

/-! ## Layout on the disk -/

structure Header where
  signature : UInt64
  firstUsableLba : UInt64
  firstPartLba : UInt64
  partCount : UInt32

def Header.ofSector (data : Sector) : Header where
  signature := data.bytes.readUInt64 0
  firstUsableLba := data.bytes.readUInt64 40
  firstPartLba := data.bytes.readUInt64 72
  partCount := data.bytes.readUInt32 80

def Header.sectors (header : Header) : Nat :=
  header.firstUsableLba.toNat - header.firstPartLba.toNat

structure PartitionEntry where
  typeGuid : Vector UInt8 16
  guid : Vector UInt8 16
  firstLba : UInt64
  lastLba : UInt64
  deriving DecidableEq

namespace PartitionEntry

def noGuid : Vector UInt8 16 := Vector.replicate 16 0

def zeroed : PartitionEntry := ⟨noGuid, noGuid, 0, 0⟩

def ofSector (data : Sector) (offset : UInt64) : PartitionEntry where
  typeGuid := Vector.ofFn fun index => data.bytes (offset + UInt64.ofNat index)
  guid := Vector.ofFn fun index => data.bytes (offset + 16 + UInt64.ofNat index)
  firstLba := data.bytes.readUInt64 (offset + 32)
  lastLba := data.bytes.readUInt64 (offset + 40)

/-- `C12A7328-F81F-11D2-BA4B-00A0C93EC93B` in mixed-endian. -/
def efiTypeGuid : Vector UInt8 16 :=
  #v[0x28, 0x73, 0x2a, 0xc1, 0x1f, 0xf8, 0xd2, 0x11, 0xba, 0x4b, 0x00, 0xa0, 0xc9, 0x3e, 0xc9,
    0x3b]

def isEfiPartition (entry : PartitionEntry) : Bool := entry.typeGuid == efiTypeGuid

def isUsed (entry : PartitionEntry) : Bool := entry.guid != noGuid

end PartitionEntry

def parts (data : Sector) : List PartitionEntry :=
  [0, 128, 256, 384].map (PartitionEntry.ofSector data)

/-! ## The two scans -/

section

variable {State : Type} (device : SectorDevice State)

def readHeader (state : State) : Except Error Header × State :=
  match device.read 1 state with
  | (none, state) => (.error .blockError, state)
  | (some data, state) =>
    let header := Header.ofSector data
    if header.signature ≠ 0x5452415020494645 then (.error .headerNotFound, state)
    else if header.firstUsableLba < 34 then (.error .violatesSpecification, state)
    else (.ok header, state)

def copyPart : UInt32 × List PartitionEntry → PartitionEntry →
    Exec (UInt32 × List PartitionEntry)
  | (currentPart, partsOut), entry =>
    if entry.isUsed then
      if currentPart.toNat < partsOut.length then
        .ok (currentPart + 1, partsOut.set currentPart.toNat entry)
      else .error .panicked
    else .ok (currentPart, partsOut)

def getPartitionsFrom (partCount : UInt32) : (sectors : Nat) → (lba : UInt64) →
    (checkedPartCount : UInt32) → UInt32 × List PartitionEntry → State →
      Exec ((Except Error UInt32 × List PartitionEntry) × State)
  | 0, _, _, (currentPart, partsOut), state => .ok ((.ok currentPart, partsOut), state)
  | sectors + 1, lba, checkedPartCount, (currentPart, partsOut), state =>
    match device.read lba state with
    | (none, state) => .ok ((.error .blockError, partsOut), state)
    | (some data, state) => do
        let (currentPart, partsOut) ← (parts data).foldlM copyPart (currentPart, partsOut)
        if checkedPartCount + 4 ≥ partCount then
          .ok ((.ok currentPart, partsOut), state)
        else
          getPartitionsFrom partCount sectors (lba + 1) (checkedPartCount + 4)
            (currentPart, partsOut) state

def getPartitions (partsOut : List PartitionEntry) (state : State) :
    Exec ((Except Error UInt32 × List PartitionEntry) × State) :=
  match readHeader device state with
  | (.error error, state) => .ok ((.error error, partsOut), state)
  | (.ok header, state) =>
    getPartitionsFrom device header.partCount header.sectors header.firstPartLba 0
      (0, partsOut) state

def findEfiEntry (partCount : UInt32) : List PartitionEntry → (checkedPartCount : UInt32) →
    Except Error (UInt64 × UInt64 × UInt32) ⊕ UInt32
  | [], checkedPartCount => .inr checkedPartCount
  | entry :: rest, checkedPartCount =>
    if entry.isEfiPartition then
      .inl (.ok (entry.firstLba, entry.lastLba, checkedPartCount + 1))
    else if checkedPartCount + 1 = partCount then .inl (.error .exceededPartitionCount)
    else findEfiEntry partCount rest (checkedPartCount + 1)

def findEfiPartitionFrom (partCount : UInt32) : (sectors : Nat) → (lba : UInt64) →
    (checkedPartCount : UInt32) → State → Except Error (UInt64 × UInt64 × UInt32) × State
  | 0, _, _, state => (.error .noEfiPartition, state)
  | sectors + 1, lba, checkedPartCount, state =>
    match device.read lba state with
    | (none, state) => (.error .blockError, state)
    | (some data, state) =>
      match findEfiEntry partCount (parts data) checkedPartCount with
      | .inl result => (result, state)
      | .inr checkedPartCount =>
        findEfiPartitionFrom partCount sectors (lba + 1) checkedPartCount state

def findEfiPartition (state : State) : Except Error (UInt64 × UInt64 × UInt32) × State :=
  match readHeader device state with
  | (.error error, state) => (.error error, state)
  | (.ok header, state) =>
    findEfiPartitionFrom device header.partCount header.sectors header.firstPartLba 0 state

end

/-! ## The table as a list of slots -/

def slotsFrom (content : UInt64 → Sector) : (lba : UInt64) → (sectors : Nat) →
    List PartitionEntry
  | _, 0 => []
  | lba, sectors + 1 => parts (content lba) ++ slotsFrom content (lba + 1) sectors

def header (content : UInt64 → Sector) : Header := Header.ofSector (content 1)

def slots (content : UInt64 → Sector) : List PartitionEntry :=
  slotsFrom content (header content).firstPartLba (header content).sectors

/-- The sectors that `get_partitions` goes through: those with the first `part_count`
slots, but at least one. Within 4 of `2^32` the count is never reached. -/
def Header.scannedSectors (header : Header) : Nat :=
  if header.partCount.toNat ≤ 2 ^ 32 - 4 then
    min header.sectors (max 1 ((header.partCount.toNat + 3) / 4))
  else header.sectors

def usedEntries (content : UInt64 → Sector) : List PartitionEntry :=
  (slotsFrom content (header content).firstPartLba (header content).scannedSectors).filter
    PartitionEntry.isUsed

theorem Header.scannedSectors_le (header : Header) : header.scannedSectors ≤ header.sectors := by
  unfold scannedSectors
  split_ifs
  · exact Nat.min_le_left _ _
  · exact Nat.le_refl _

@[simp] theorem length_slotsFrom (content : UInt64 → Sector) (lba : UInt64) (sectors : Nat) :
    (slotsFrom content lba sectors).length = 4 * sectors := by
  induction sectors generalizing lba with
  | zero => rfl
  | succ sectors induction =>
    rw [slotsFrom, List.length_append, induction]
    change 4 + 4 * sectors = 4 * (sectors + 1)
    omega

theorem slotsFrom_eq_take (content : UInt64 → Sector) (lba : UInt64) {scanned sectors : Nat}
    (fewer : scanned ≤ sectors) :
    slotsFrom content lba scanned = (slotsFrom content lba sectors).take (4 * scanned) := by
  induction scanned generalizing lba sectors with
  | zero => simp [slotsFrom]
  | succ scanned induction =>
    cases sectors with
    | zero => omega
    | succ sectors =>
      have four : 4 * (scanned + 1) = (parts (content lba)).length + 4 * scanned := by
        change 4 * (scanned + 1) = 4 + 4 * scanned
        omega
      rw [slotsFrom, slotsFrom, four, List.take_length_add_append, ← induction (lba + 1) (by omega)]

variable {State : Type} {device : SectorDevice State}

/-- How many of these sectors, from `lba` on, the device reads before the first failure. -/
def readable (device : SectorDevice State) : (sectors : Nat) → (lba : UInt64) → State → Nat
  | 0, _, _ => 0
  | sectors + 1, lba, state =>
    match device.fails lba state with
    | (true, _) => 0
    | (false, state) => readable device sectors (lba + 1) state + 1

theorem readable_eq_min (device : SectorDevice State) {fewer sectors : Nat}
    (few : fewer ≤ sectors) (lba : UInt64) (state : State) :
    readable device fewer lba state = min fewer (readable device sectors lba state) := by
  induction fewer generalizing sectors lba state with
  | zero => rw [Nat.zero_min, readable]
  | succ fewer induction =>
    cases sectors with
    | zero => omega
    | succ sectors =>
      rw [readable, readable]
      split
      · rfl
      · rw [induction (Nat.le_of_succ_le_succ few), Nat.add_min_add_right]

variable {state : State} {partCount : UInt32} {entries partsOut partsOut' : List PartitionEntry}
   {length : Nat}

theorem SectorDevice.read_some {sector : UInt64} {next : State} {data : Sector}
    (returned : device.read sector state = (some data, next)) :
    data = device.content sector := by
  unfold SectorDevice.read at returned
  split at returned
  · cases returned
  · cases returned
    rfl

theorem readHeader_ok {next : State} {found : Header}
    (returned : readHeader device state = (.ok found, next)) :
    found = header device.content := by
  unfold readHeader at returned
  split at returned
  · cases returned
  · next data _ read =>
      have contents := SectorDevice.read_some read
      simp only at returned
      split_ifs at returned
      · cases returned
      · cases returned
      · simp only [Prod.mk.injEq, Except.ok.injEq] at returned
        rw [← returned.1, contents, header]

/-! ## What `find_efi_partition` finds -/

/-- The system partition with the lowest slot, counted from zero. -/
structure FirstEfi (entries : List PartitionEntry) (slot : Nat) (boot : PartitionEntry) :
    Prop where
  found : entries[slot]? = some boot
  isEfi : boot.isEfiPartition = true
  earlier : ∀ entry ∈ entries.take slot, entry.isEfiPartition = false

theorem FirstEfi.cons {entry boot : PartitionEntry} {rest : List PartitionEntry} {slot : Nat}
    (notEfi : entry.isEfiPartition = false) (first : FirstEfi rest slot boot) :
    FirstEfi (entry :: rest) (slot + 1) boot := by
  refine ⟨first.found, first.isEfi, ?_⟩
  intro other member
  rcases List.mem_cons.mp member with equal | later
  · exact equal ▸ notEfi
  · exact first.earlier other later

theorem findEfiEntry_append (partCount : UInt32) (entries more : List PartitionEntry)
    (checked : UInt32) :
    findEfiEntry partCount (entries ++ more) checked =
      match findEfiEntry partCount entries checked with
      | .inl result => .inl result
      | .inr checked => findEfiEntry partCount more checked := by
  induction entries generalizing checked with
  | nil => rfl
  | cons entry rest induction =>
    simp only [List.cons_append, findEfiEntry, induction]
    split_ifs <;> rfl

theorem findEfiPartitionFrom_ok {sectors : Nat} {lba : UInt64}
    {checked : UInt32} {next : State} {result : UInt64 × UInt64 × UInt32}
    (returned : findEfiPartitionFrom device partCount sectors lba checked state =
      (.ok result, next)) :
    findEfiEntry partCount (slotsFrom device.content lba sectors) checked = .inl (.ok result) := by
  induction sectors generalizing lba checked state with
  | zero => cases returned
  | succ sectors induction =>
    unfold findEfiPartitionFrom at returned
    split at returned
    · cases returned
    · next data _ read =>
        rw [SectorDevice.read_some read] at returned
        rw [slotsFrom, findEfiEntry_append]
        revert returned
        cases findEfiEntry partCount (parts (device.content lba)) checked with
        | inl outcome =>
          intro returned
          cases returned
          rfl
        | inr checked => exact induction

/-- The entry found is the first one, and its number counts the slots from one. Before
it, the number of checked slots never was the partition count. -/
theorem findEfiEntry_ok {checked : UInt32} {start last : UInt64} {id : UInt32}
    (returned : findEfiEntry partCount entries checked = .inl (.ok (start, last, id))) :
    ∃ slot boot, FirstEfi entries slot boot ∧ boot.firstLba = start ∧ boot.lastLba = last ∧
      id = checked + UInt32.ofNat (slot + 1) ∧
      ∀ passed < slot, checked + UInt32.ofNat (passed + 1) ≠ partCount := by
  induction entries generalizing checked with
  | nil => cases returned
  | cons entry rest induction =>
    rw [findEfiEntry] at returned
    split_ifs at returned with isEfi reached
    · cases returned
      exact ⟨0, entry, ⟨rfl, isEfi, by simp⟩, rfl, rfl, rfl, by simp⟩
    · cases returned
    · rcases induction returned with ⟨slot, boot, first, isStart, isLast, isId, passing⟩
      have shift : ∀ count, checked + 1 + UInt32.ofNat count =
          checked + UInt32.ofNat (count + 1) := by
        intro count
        rw [UInt32.ofNat_add, UInt32.add_assoc, UInt32.add_comm 1]
        rfl
      refine ⟨slot + 1, boot, first.cons (by simpa using isEfi), isStart, isLast, ?_, ?_⟩
      · rw [isId, shift]
      · intro passed before
        cases passed with
        | zero => exact reached
        | succ passed =>
          rw [← shift]
          exact passing passed (by omega)

theorem slot_lt {slot : Nat}
    (passing : ∀ passed < slot, 0 + UInt32.ofNat (passed + 1) ≠ partCount) :
    slot < 2 ^ 32 := by
  by_contra large
  have bound := partCount.toNat_lt
  by_cases zero : partCount.toNat = 0
  · apply passing (2 ^ 32 - 1) (by omega)
    apply UInt32.toNat_inj.mp
    rw [zero]
    rfl
  · apply passing (partCount.toNat - 1) (by omega)
    apply UInt32.toNat_inj.mp
    rw [UInt32.zero_add, UInt32.toNat_ofNat', Nat.mod_eq_of_lt (by omega)]
    omega

theorem findEfiPartition_ok {next : State} {start last : UInt64} {id : UInt32}
    (returned : findEfiPartition device state = (.ok (start, last, id), next)) :
    ∃ slot boot, FirstEfi (slots device.content) slot boot ∧ boot.firstLba = start ∧
      boot.lastLba = last ∧ id = UInt32.ofNat (slot + 1) ∧ slot < 2 ^ 32 := by
  unfold findEfiPartition at returned
  split at returned
  · cases returned
  · next found _ read =>
      rw [readHeader_ok read] at returned
      rcases findEfiEntry_ok (findEfiPartitionFrom_ok returned) with
        ⟨slot, boot, first, isStart, isLast, isId, passing⟩
      exact ⟨slot, boot, first, isStart, isLast, by rw [isId, UInt32.zero_add], slot_lt passing⟩

/-! ## What `get_partitions` copies -/

structure Copied (copied : List PartitionEntry) (length : Nat)
    (output : UInt32 × List PartitionEntry) : Prop where
  count : output.1 = UInt32.ofNat copied.length
  entries : ∃ rest, output.2 = copied ++ rest
  size : output.2.length = length

section

variable {copied : List PartitionEntry} {output : UInt32 × List PartitionEntry}
  (isCopied : Copied copied length output)

include isCopied

theorem Copied.length_le : copied.length ≤ length := by
  rcases isCopied.entries with ⟨rest, entries⟩
  rw [← isCopied.size, entries, List.length_append]
  omega

theorem Copied.copyPart (small : copied.length < 2 ^ 32) {entry : PartitionEntry}
    (used : entry.isUsed = true) :
    if copied.length < length then
      ∃ output', Part.copyPart output entry = .ok output' ∧
        Copied (copied ++ [entry]) length output'
    else Part.copyPart output entry = .error .panicked := by
  rcases output with ⟨current, partsOut⟩
  rcases isCopied with ⟨count, ⟨rest, entries⟩, size⟩
  simp only at count entries size
  have position : current.toNat = copied.length := by
    rw [count, UInt32.toNat_ofNat', Nat.mod_eq_of_lt small]
  rw [Part.copyPart, if_pos used, position, size]
  split_ifs with room
  · refine ⟨_, rfl, ?_, ?_, by simpa using size⟩
    · simp only [count, List.length_append, List.length_singleton, UInt32.ofNat_add]
      rfl
    · cases rest with
      | nil =>
        rw [entries, List.append_nil] at size
        omega
      | cons _ rest => exact ⟨rest, by simp [entries]⟩
  · rfl

end

theorem copyPart_unused (output : UInt32 × List PartitionEntry) {entry : PartitionEntry}
    (unused : ¬entry.isUsed = true) : copyPart output entry = .ok output := by
  rw [copyPart, if_neg unused]

section

variable {copied : List PartitionEntry} {output : UInt32 × List PartitionEntry}
  (isCopied : Copied copied length output)

include isCopied

theorem Copied.foldlM_fits
    (fits : copied.length + (entries.filter PartitionEntry.isUsed).length ≤ length)
    (small : copied.length + (entries.filter PartitionEntry.isUsed).length < 2 ^ 32) :
    ∃ output', entries.foldlM Part.copyPart output = .ok output' ∧
      Copied (copied ++ entries.filter PartitionEntry.isUsed) length output' := by
  induction entries generalizing copied output with
  | nil => exact ⟨output, rfl, by simpa using isCopied⟩
  | cons entry rest induction =>
    rw [List.foldlM_cons]
    by_cases used : entry.isUsed = true
    · rw [List.filter_cons_of_pos used, List.length_cons] at fits small
      have copies := isCopied.copyPart (by omega) used
      rw [if_pos (by omega)] at copies
      rcases copies with ⟨middle, first, isCopied'⟩
      have length : (copied ++ [entry]).length = copied.length + 1 := by simp
      rcases induction isCopied' (by omega) (by omega) with ⟨output', later, all⟩
      rw [List.append_assoc, List.singleton_append] at all
      rw [first, Exec.ok_bind, List.filter_cons_of_pos used]
      exact ⟨output', later, all⟩
    · rw [List.filter_cons_of_neg used] at fits small ⊢
      rw [copyPart_unused output used, Exec.ok_bind]
      exact induction isCopied fits small

theorem Copied.foldlM_overflows (small : length < 2 ^ 32)
    (tooMany : length < copied.length + (entries.filter PartitionEntry.isUsed).length) :
    entries.foldlM Part.copyPart output = .error .panicked := by
  have bound := isCopied.length_le
  induction entries generalizing copied output with
  | nil =>
    rw [List.filter_nil, List.length_nil] at tooMany
    omega
  | cons entry rest induction =>
    rw [List.foldlM_cons]
    by_cases used : entry.isUsed = true
    · rw [List.filter_cons_of_pos used, List.length_cons] at tooMany
      have copies := isCopied.copyPart (by omega) used
      split_ifs at copies with room
      · rcases copies with ⟨middle, first, isCopied'⟩
        have length : (copied ++ [entry]).length = copied.length + 1 := by simp
        rw [first, Exec.ok_bind]
        exact induction isCopied' (by omega) isCopied'.length_le
      · rw [copies]
        rfl
    · rw [List.filter_cons_of_neg used] at tooMany
      rw [copyPart_unused output used, Exec.ok_bind]
      exact induction isCopied tooMany bound

end

def scanned (partCount : UInt32) : (sectors : Nat) → (checked : UInt32) → Nat
  | 0, _ => 0
  | sectors + 1, checked =>
    if checked + 4 ≥ partCount then 1 else scanned partCount sectors (checked + 4) + 1

def readEntries (device : SectorDevice State) (sectors : Nat) (lba : UInt64) (state : State) :
    List PartitionEntry :=
  (slotsFrom device.content lba (readable device sectors lba state)).filter
    PartitionEntry.isUsed

section

variable {lba : UInt64} {state next : State}

theorem readEntries_of_failed (sectors : Nat) (failed : device.fails lba state = (true, next)) :
    readEntries device (sectors + 1) lba state = [] := by
  rw [readEntries, readable, failed]
  rfl

theorem readEntries_of_read (sectors : Nat) (read : device.fails lba state = (false, next)) :
    readEntries device (sectors + 1) lba state =
      (parts (device.content lba)).filter PartitionEntry.isUsed ++
        readEntries device sectors (lba + 1) next := by
  rw [readEntries, readable, read, slotsFrom, List.filter_append, readEntries]

end

section

variable {partCount checked : UInt32} {sectors : Nat} {lba : UInt64}
  {copied : List PartitionEntry} {length : Nat} {output : UInt32 × List PartitionEntry}
  {state : State}

theorem getPartitionsFrom_succ {next : State} {middle : UInt32 × List PartitionEntry}
    (read : device.fails lba state = (false, next))
    (here : (parts (device.content lba)).foldlM copyPart output = .ok middle) :
    getPartitionsFrom device partCount (sectors + 1) lba checked output state =
      if checked + 4 ≥ partCount then .ok ((.ok middle.1, middle.2), next)
      else getPartitionsFrom device partCount sectors (lba + 1) (checked + 4) middle next := by
  rw [getPartitionsFrom, SectorDevice.read, read]
  simp only [here, Exec.ok_bind]

theorem scanned_succ (partCount : UInt32) (sectors : Nat) (checked : UInt32) :
    scanned partCount (sectors + 1) checked =
      (if checked + 4 ≥ partCount then 0 else scanned partCount sectors (checked + 4)) + 1 := by
  rw [scanned]
  split_ifs <;> rfl

theorem getPartitionsFrom_fits (isCopied : Copied copied length output) {count : Nat}
    (isCount : scanned partCount sectors checked = count)
    (fits : copied.length + (readEntries device count lba state).length ≤ length)
    (small : copied.length + (readEntries device count lba state).length < 2 ^ 32) :
    ∃ output' next,
      getPartitionsFrom device partCount sectors lba checked output state =
        .ok ((if readable device count lba state = count then .ok output'.1
          else .error .blockError, output'.2), next) ∧
      Copied (copied ++ readEntries device count lba state) length output' := by
  induction sectors generalizing lba checked copied output state count with
  | zero =>
    subst isCount
    refine ⟨output, state, rfl, ?_⟩
    simpa [readEntries, scanned, readable, slotsFrom] using isCopied
  | succ sectors induction =>
    rw [scanned_succ] at isCount
    subst isCount
    rcases read : device.fails lba state with ⟨_ | _, next⟩
    · rw [readEntries_of_read _ read] at fits small ⊢
      rw [List.length_append] at fits small
      have fitsHere : copied.length +
          ((parts (device.content lba)).filter PartitionEntry.isUsed).length ≤ length := by omega
      rcases isCopied.foldlM_fits fitsHere (by omega) with ⟨middle, here, isCopied'⟩
      rw [getPartitionsFrom_succ read here, readable, read, ← List.append_assoc]
      simp only [Nat.add_right_cancel_iff]
      by_cases reached : checked + 4 ≥ partCount
      · simp only [if_pos reached]
        exact ⟨middle, next, by simp [readable], by
          simpa [readEntries, readable, slotsFrom] using isCopied'⟩
      · simp only [if_neg reached] at fits small ⊢
        apply induction isCopied' rfl
        · rw [List.length_append]
          omega
        · rw [List.length_append]
          omega
    · rw [readEntries_of_failed _ read, getPartitionsFrom, SectorDevice.read, readable, read]
      exact ⟨output, next, by simp, by simpa using isCopied⟩

theorem getPartitionsFrom_overflows (isCopied : Copied copied length output)
    (small : length < 2 ^ 32)
    (tooMany : length < copied.length +
      (readEntries device (scanned partCount sectors checked) lba state).length) :
    getPartitionsFrom device partCount sectors lba checked output state = .error .panicked := by
  have bound := isCopied.length_le
  induction sectors generalizing lba checked copied output state with
  | zero =>
    simp only [readEntries, scanned, readable, slotsFrom, List.filter_nil,
      List.length_nil] at tooMany
    omega
  | succ sectors induction =>
    rw [scanned_succ] at tooMany
    rcases read : device.fails lba state with ⟨_ | _, next⟩
    · rw [readEntries_of_read _ read, List.length_append] at tooMany
      by_cases fitsHere : copied.length +
          ((parts (device.content lba)).filter PartitionEntry.isUsed).length ≤ length
      · rcases isCopied.foldlM_fits fitsHere (by omega) with ⟨middle, here, isCopied'⟩
        rw [getPartitionsFrom_succ read here]
        split_ifs at tooMany ⊢ with reached
        · simp only [readEntries, readable, slotsFrom, List.filter_nil, List.length_nil] at tooMany
          omega
        · apply induction isCopied' _ isCopied'.length_le
          rw [List.length_append]
          omega
      · have here := isCopied.foldlM_overflows small (Nat.lt_of_not_le fitsHere)
        rw [getPartitionsFrom, SectorDevice.read, read]
        simp only [here]
        rfl
    · rw [readEntries_of_failed _ read, List.length_nil] at tooMany
      omega

theorem getPartitionsFrom_ok {next : State} (isCopied : Copied copied length output)
    (small : length < 2 ^ 32) {count : UInt32} {partsOut : List PartitionEntry}
    (returned : getPartitionsFrom device partCount sectors lba checked output state =
      .ok ((.ok count, partsOut), next)) :
    Copied (copied ++
      (slotsFrom device.content lba (scanned partCount sectors checked)).filter
        PartitionEntry.isUsed) length (count, partsOut) := by
  by_cases fits : copied.length +
      (readEntries device (scanned partCount sectors checked) lba state).length ≤ length
  · rcases getPartitionsFrom_fits isCopied rfl fits (by omega) with
      ⟨⟨count', partsOut'⟩, next', returned', all⟩
    rw [returned'] at returned
    split_ifs at returned with allRead
    · cases returned
      rwa [readEntries, allRead] at all
    · cases returned
  · rw [getPartitionsFrom_overflows isCopied small (Nat.lt_of_not_le fits)] at returned
    cases returned

end

/-- As long as the count of checked slots has not reached the partition count, the
sectors left to scan are those up to it. -/
theorem scanned_eq (partCount : UInt32) (sectors done : Nat)
    (notReached : done = 0 ∨ 4 * done < partCount.toNat ∨ 2 ^ 32 - 4 < partCount.toNat) :
    scanned partCount sectors (UInt32.ofNat (4 * done)) =
      if partCount.toNat ≤ 2 ^ 32 - 4 then
        min sectors (max 1 ((partCount.toNat + 3) / 4 - done))
      else sectors := by
  induction sectors generalizing done with
  | zero => simp [scanned]
  | succ sectors induction =>
    have bound := partCount.toNat_lt
    have advanced : UInt32.ofNat (4 * done) + 4 = UInt32.ofNat (4 * (done + 1)) := by
      rw [Nat.mul_add, UInt32.ofNat_add]
      rfl
    have count : (UInt32.ofNat (4 * (done + 1))).toNat = 4 * (done + 1) % 2 ^ 32 :=
      UInt32.toNat_ofNat'
    simp only [scanned, advanced, ge_iff_le, UInt32.le_iff_toNat_le, count]
    by_cases countable : partCount.toNat ≤ 2 ^ 32 - 4
    · rw [Nat.mod_eq_of_lt (by omega), if_pos countable]
      by_cases reached : partCount.toNat ≤ 4 * (done + 1)
      · rw [if_pos reached]
        omega
      · rw [if_neg reached, induction (done + 1) (by omega), if_pos countable]
        omega
    · rw [if_neg countable, if_neg (by omega), induction (done + 1) (by omega), if_neg countable]

theorem Header.scanned_eq_scannedSectors (header : Header) :
    scanned header.partCount header.sectors 0 = header.scannedSectors :=
  scanned_eq header.partCount header.sectors 0 (.inl rfl)

section

variable {next : State} (small : partsOut.length < 2 ^ 32) {count : UInt32}
  (returned : getPartitions device partsOut state = .ok ((.ok count, partsOut'), next))

include small returned

theorem getPartitions_ok :
    Copied (usedEntries device.content) partsOut.length (count, partsOut') := by
  unfold getPartitions at returned
  split at returned
  · cases returned
  · next found _ read =>
      rw [readHeader_ok read] at returned
      have nothing : Copied [] partsOut.length ((0 : UInt32), partsOut) :=
        ⟨rfl, ⟨partsOut, rfl⟩, rfl⟩
      have all := getPartitionsFrom_ok nothing small returned
      rwa [List.nil_append, Header.scanned_eq_scannedSectors] at all

theorem usedEntries_eq_take : usedEntries device.content = partsOut'.take count.toNat := by
  rcases getPartitions_ok small returned with ⟨isCount, ⟨rest, entries⟩, size⟩
  simp only at isCount entries size
  rw [entries, List.length_append] at size
  rw [isCount, UInt32.toNat_ofNat', Nat.mod_eq_of_lt (by omega), entries, List.take_left]

end

/-! ## Disks -/

def wordSector (words : List UInt64) : Sector :=
  ⟨((ByteMemory.ofWords words).bytes 0 512).toArray, by simp⟩

theorem bytes_wordSector {words : List UInt64} (few : words.length ≤ 64) :
    (wordSector words).bytes = ByteMemory.ofWords words := by
  funext address
  rw [Sector.bytes, wordSector]
  by_cases inside : address.toNat < 512
  · simp [List.getD_eq_getElem?_getD, inside, ByteMemory.bytes]
  · have behind : words.length ≤ address.toNat / 8 := by omega
    simp [List.getD_eq_getElem?_getD, inside, ByteMemory.ofWords, behind, ByteMemory.bytes]

def systemPartition (firstLba lastLba : UInt64) : List UInt64 :=
  [0x11d2f81fc12a7328, 0x3bc93ec9a0004bba, 0x0101010101010101, 0x0101010101010101, firstLba,
    lastLba] ++ List.replicate 10 0

/-- A disk whose partition table has four slots, all of them in one sector. -/
def diskOf (table : List UInt64) : SectorDevice Unit :=
  .reliable fun lba =>
    wordSector
      (if lba = 1 then [0x5452415020494645, 0, 0, 0, 0, 34, 0, 0, 0, 2, 4]
      else if lba = 2 then table else [])

end HypervisorFirmware.Part
