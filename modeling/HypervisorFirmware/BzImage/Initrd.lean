import HypervisorFirmware.Fat.Read
import HypervisorFirmware.Mem.MemoryRegion

/-! # The place of the initrd

`load_initrd` of `bzimage.rs` looks through the E820 table for the RAM that ends highest
below the limit, and puts the initrd in front of the last byte of it. It does not look at
the size of this RAM, and RAM that goes on behind the limit does not count. -/

namespace HypervisorFirmware.BzImage

open Fat (Read Sector)

/-! ## The source -/

inductive Error
  | fileError
  | kernelOld
  | magicMissing
  | notRelocatable
  deriving DecidableEq, Repr

def zeroPageStart : UInt64 := 0x7000

def e820Ram : UInt32 := 1

structure E820Entry where
  addr : UInt64
  size : UInt64
  entryType : UInt32
  deriving DecidableEq

def e820Entry (memory : ByteMemory) (address : UInt64) : E820Entry where
  addr := memory.readUInt64 address
  size := memory.readUInt64 (address + 8)
  entryType := memory.readUInt32 (address + 16)

def e820Table (memory : ByteMemory) (address : UInt64) (count : Nat) : List E820Entry :=
  (List.range count).map fun index => e820Entry memory (address + 20 * UInt64.ofNat index)

def E820Entry.last (entry : E820Entry) : UInt64 := entry.addr + entry.size - 1

def topOfUsableRam (maxLoadAddress : UInt64) (table : List E820Entry) : UInt64 :=
  table.foldl
    (fun top entry =>
      if entry.entryType = e820Ram then
        if entry.last > top ∧ entry.last < maxLoadAddress then entry.last else top
      else top)
    0

variable {State : Type}

abbrev CopyState (State : Type) := UInt32 × ByteMemory × State

def copyBody (file : Read State) (region : MemoryRegion) :
    CopyState State → Exec (CopyState State ⊕ (Except Error Unit × ByteMemory × State))
  | (offset, memory, state) =>
    if offset < file.size then
      let bytesRemaining := file.size - offset
      -- Use intermediate buffer for last, partial sector
      if bytesRemaining < 512 then do
        match ← file.read state with
        | (.error .endOfFile, state) => return .inr (.ok (), memory, state)
        | (.error _, state) => return .inr (.error .fileError, memory, state)
        | (.ok (_, data), state) =>
          let dst ← region.asMutSlice 1 offset.toUInt64 bytesRemaining.toUInt64
          let memory := memory.write dst (data.toList.take bytesRemaining.toNat)
          return .inr (.ok (), memory, state)
      else do
        let dst ← region.asMutSlice 1 offset.toUInt64 512
        match ← file.read state with
        | (.error .endOfFile, state) => return .inr (.ok (), memory, state)
        | (.error _, state) => return .inr (.error .fileError, memory, state)
        | (.ok (_, data), state) =>
          return .inl (offset + 512, memory.write dst data.toList, state)
    else return .inr (.ok (), memory, state)

def copyBudget : Nat := 2 ^ 23 + 1

def loadInitrd (file : Read State) (memory : ByteMemory) (state : State) :
    Exec (Except Error Unit × ByteMemory × State) := do
  let zeroPage : MemoryRegion := ⟨zeroPageStart, 4096⟩
  let limit ← zeroPage.readU32 memory 0x22c
  let maxLoadAddress := if limit = 0 then 0x37ffffff else limit.toUInt64
  let e820Count ← zeroPage.readU8 memory 0x1e8
  let address ← zeroPage.asMutSlice 20 0x2d0 e820Count.toUInt64
  let top := topOfUsableRam maxLoadAddress (e820Table memory address e820Count.toNat)
  let top := if top > maxLoadAddress then maxLoadAddress else top
  let initrdAddress := top - file.size.toUInt64
  let initrdRegion : MemoryRegion := ⟨initrdAddress, file.size.toUInt64⟩
  match ← Loop.run (copyBody file initrdRegion) copyBudget (0, memory, state) with
  | (.error error, memory, state) => return (.error error, memory, state)
  | (.ok (), memory, state) =>
    let memory ← zeroPage.writeU32 memory 0x218 initrdAddress.toUInt32
    let memory ← zeroPage.writeU32 memory 0x21c file.size
    return (.ok (), memory, state)

/-! ## The place that is recorded -/

structure Request where
  table : List E820Entry
  limit : UInt64

def request (memory : ByteMemory) : Request where
  table := e820Table memory (zeroPageStart + 0x2d0) (memory (zeroPageStart + 0x1e8)).toNat
  limit :=
    let limit := memory.readUInt32 (zeroPageStart + 0x22c)
    if limit = 0 then 0x37ffffff else limit.toUInt64

def E820Entry.Holds (entry : E820Entry) (start size : Nat) : Prop :=
  entry.addr.toNat ≤ start ∧ start + size ≤ entry.addr.toNat + entry.size.toNat

namespace Request

variable (asked : Request)

def Ram (entry : E820Entry) : Prop :=
  entry ∈ asked.table ∧ entry.entryType = e820Ram

def Usable (start size : Nat) : Prop :=
  (∃ entry, asked.Ram entry ∧ entry.Holds start size) ∧ start + size ≤ asked.limit.toNat

/-- The RAM whose last byte is the highest one below the limit. -/
def Highest (entry : E820Entry) : Prop :=
  asked.Ram entry ∧ entry.last < asked.limit ∧
    ∀ other, asked.Ram other → other.last < asked.limit → other.last ≤ entry.last

/-- The bytes in front of the last byte of the highest RAM are inside of one RAM entry. -/
def FitsBelow (size : Nat) : Prop :=
  ∃ entry, asked.Highest entry ∧ size ≤ entry.last.toNat ∧
    ∃ home, asked.Ram home ∧ home.Holds (entry.last.toNat - size) size

end Request

def recorded (memory : ByteMemory) : Nat × Nat :=
  ((memory.readUInt32 (zeroPageStart + 0x218)).toNat,
    (memory.readUInt32 (zeroPageStart + 0x21c)).toNat)

/-- A load that succeeds records a usable place for the file, and where there is one, the
load of a file that can be read succeeds. -/
structure PlacesInitrd (memory : ByteMemory) (size : UInt32) : Prop where
  usable : ∀ {State : Type} (file : Read State) (state final : State) (after : ByteMemory),
    file.size = size → loadInitrd file memory state = .ok (.ok (), after, final) →
    (recorded after).2 = size.toNat ∧ (request memory).Usable (recorded after).1 size.toNat
  succeeds : (∃ start, (request memory).Usable start size.toNat) →
    ∀ {State : Type} (file : Read State) (state : State), file.size = size →
      file.Delivers state → ∃ after final, loadInitrd file memory state = .ok (.ok (), after, final)

def TableInPage (memory : ByteMemory) : Prop :=
  0x2d0 + 20 * (memory (zeroPageStart + 0x1e8)).toNat ≤ 4096

/-! ## The search -/

/-- The search keeps the highest last byte below the limit. The induction is on the
entries still to come. -/
theorem topOfUsableRam_fold (limit : UInt64) (table : List E820Entry) (top : UInt64) :
    let found := table.foldl
      (fun top entry =>
        if entry.entryType = e820Ram then
          if entry.last > top ∧ entry.last < limit then entry.last else top
        else top)
      top
    top ≤ found ∧
      (∀ entry ∈ table, entry.entryType = e820Ram → entry.last < limit → entry.last ≤ found) ∧
      (found = top ∨ ∃ entry ∈ table, entry.entryType = e820Ram ∧ entry.last < limit ∧
        entry.last = found) := by
  induction table generalizing top with
  | nil => exact ⟨UInt64.le_refl top, by simp, Or.inl rfl⟩
  | cons entry rest induction =>
    rw [List.foldl_cons]
    by_cases taken : entry.entryType = e820Ram ∧ entry.last > top ∧ entry.last < limit
    · rw [if_pos taken.1, if_pos taken.2]
      rcases induction entry.last with ⟨above, highest, origin⟩
      refine ⟨UInt64.le_trans (UInt64.le_of_lt taken.2.1) above, ?_, Or.inr ?_⟩
      · intro other member ram below
        rcases List.mem_cons.mp member with rfl | later
        · exact above
        · exact highest other later ram below
      · rcases origin with here | ⟨other, member, properties⟩
        · exact ⟨entry, List.mem_cons_self, taken.1, taken.2.2, here.symm⟩
        · exact ⟨other, List.mem_cons_of_mem entry member, properties⟩
    · have passed : (if entry.entryType = e820Ram then
          if entry.last > top ∧ entry.last < limit then entry.last else top
        else top) = top := by
        split
        · rename_i ram
          exact if_neg fun taken' => taken ⟨ram, taken'⟩
        · rfl
      rw [passed]
      rcases induction top with ⟨above, highest, origin⟩
      refine ⟨above, ?_, ?_⟩
      · intro other member ram below
        rcases List.mem_cons.mp member with rfl | later
        · have low : other.last ≤ top := UInt64.not_lt.mp fun higher => taken ⟨ram, higher, below⟩
          exact UInt64.le_trans low above
        · exact highest other later ram below
      · rcases origin with here | ⟨other, member, properties⟩
        · exact Or.inl here
        · exact Or.inr ⟨other, List.mem_cons_of_mem entry member, properties⟩

namespace Request

def top (asked : Request) : UInt64 := topOfUsableRam asked.limit asked.table

theorem last_le_top (asked : Request) {entry : E820Entry} (ram : asked.Ram entry)
    (below : entry.last < asked.limit) : entry.last ≤ asked.top :=
  (topOfUsableRam_fold asked.limit asked.table 0).2.1 entry ram.1 ram.2 below

theorem top_cases (asked : Request) :
    asked.top = 0 ∨ ∃ entry, asked.Highest entry ∧ entry.last = asked.top := by
  rcases (topOfUsableRam_fold asked.limit asked.table 0).2.2 with
    nothing | ⟨entry, member, ram, below, same⟩
  · exact Or.inl nothing
  · have here : entry.last = asked.top := same
    refine Or.inr ⟨entry, ⟨⟨member, ram⟩, below, ?_⟩, here⟩
    intro other otherRam otherBelow
    rw [here]
    exact asked.last_le_top otherRam otherBelow

theorem Highest.last_eq {asked : Request} {entry : E820Entry} (highest : asked.Highest entry)
    (positive : 0 < entry.last.toNat) : entry.last = asked.top := by
  have least := asked.last_le_top highest.1 highest.2.1
  rcases asked.top_cases with zero | ⟨other, otherHighest, same⟩
  · rw [zero, UInt64.le_iff_toNat_le] at least
    change entry.last.toNat ≤ 0 at least
    omega
  · apply UInt64.le_antisymm least
    rw [← same]
    exact highest.2.2 other otherHighest.1 otherHighest.2.1

theorem limit_lt (memory : ByteMemory) : (request memory).limit.toNat < 2 ^ 32 := by
  unfold request
  dsimp only
  split
  · decide
  · rw [UInt32.toNat_toUInt64]
    exact UInt32.toNat_lt _

theorem top_lt (memory : ByteMemory) : (request memory).top.toNat < 2 ^ 32 := by
  rcases (request memory).top_cases with zero | ⟨entry, highest, same⟩
  · rw [zero]
    decide
  · have below := UInt64.lt_iff_toNat_lt.mp highest.2.1
    have bound := limit_lt memory
    rw [same] at below
    omega

theorem fitsBelow_iff (memory : ByteMemory) {size : UInt32} (positive : 0 < size.toNat) :
    (request memory).FitsBelow size.toNat ↔
      (request memory).Usable ((request memory).top - size.toUInt64).toUInt32.toNat
        size.toNat := by
  have topBound := top_lt memory
  have limitBound := limit_lt memory
  have place : ((request memory).top - size.toUInt64).toUInt32.toNat =
      (2 ^ 64 - size.toNat + (request memory).top.toNat) % 2 ^ 64 % 2 ^ 32 := by
    rw [UInt64.toNat_toUInt32, UInt64.toNat_sub, UInt32.toNat_toUInt64]
  constructor
  · rintro ⟨entry, highest, fits, home, ram, holds⟩
    have last := highest.last_eq (Nat.lt_of_lt_of_le positive fits)
    have below := UInt64.lt_iff_toNat_lt.mp highest.2.1
    have here : ((request memory).top - size.toUInt64).toUInt32.toNat =
        entry.last.toNat - size.toNat := by
      rw [place, ← last]
      omega
    rw [here]
    exact ⟨⟨home, ram, holds⟩, by omega⟩
  · rintro ⟨⟨home, ram, holds⟩, inLimit⟩
    -- A place that wraps ends behind 4 GiB.
    have fits : size.toNat ≤ (request memory).top.toNat := by omega
    have here : ((request memory).top - size.toUInt64).toUInt32.toNat =
        (request memory).top.toNat - size.toNat := by omega
    rw [here] at holds
    rcases (request memory).top_cases with zero | ⟨entry, highest, same⟩
    · rw [zero] at fits
      change size.toNat ≤ 0 at fits
      omega
    · rw [← same] at fits holds
      exact ⟨entry, highest, fits, home, ram, holds⟩

end Request

/-! ## The copy -/

theorem copy_returns {file : Read State} {state : State} (delivers : file.Delivers state)
    (base : UInt64) (memory : ByteMemory) :
    ∃ after final,
      Loop.run (copyBody file ⟨base, file.size.toUInt64⟩) copyBudget (0, memory, state) =
        .ok (.ok (), after, final) := by
  have sizeBound := file.size.toNat_lt
  apply Loop.run_of_measure
    (fun copied => ∃ reads, copied.1.toNat = 512 * reads ∧ file.After state reads copied.2.2)
    (fun copied : CopyState State => (file.size.toNat - copied.1.toNat) / 512)
    (fun outcome : Exec (Except Error Unit × ByteMemory × State) =>
      ∃ after final, outcome = .ok (.ok (), after, final))
  · rintro ⟨offset, memory, reached⟩ ⟨reads, place, after⟩
    dsimp only at place after
    by_cases more : offset < file.size
    · have before := UInt32.lt_iff_toNat_lt.mp more
      have left : (file.size - offset).toNat = file.size.toNat - offset.toNat :=
        UInt32.toNat_sub_of_le _ _ (UInt32.le_of_lt more)
      rcases delivers reads reached (place ▸ before) after with ⟨count, data, next, delivered⟩
      rw [copyBody, if_pos more]
      by_cases partly : file.size - offset < 512
      · have fits : offset.toUInt64 + (file.size - offset).toUInt64 * 1 ≤
            file.size.toUInt64 := by
          rw [UInt64.mul_one, UInt64.le_iff_toNat_le, UInt64.toNat_add, UInt32.toNat_toUInt64,
            UInt32.toNat_toUInt64, UInt32.toNat_toUInt64]
          omega
        dsimp only
        rw [if_pos partly, delivered, Exec.ok_bind]
        dsimp only
        rw [MemoryRegion.asMutSlice, if_pos fits]
        exact ⟨_, _, rfl⟩
      · have whole : 512 ≤ file.size.toNat - offset.toNat := by
          rw [UInt32.not_lt, UInt32.le_iff_toNat_le, left] at partly
          exact partly
        have fits : offset.toUInt64 + 512 * 1 ≤ file.size.toUInt64 := by
          rw [UInt64.mul_one, UInt64.le_iff_toNat_le, UInt64.toNat_add, UInt32.toNat_toUInt64,
            UInt32.toNat_toUInt64]
          change (offset.toNat + 512) % 2 ^ 64 ≤ file.size.toNat
          omega
        have moved : (offset + 512).toNat = offset.toNat + 512 := by
          rw [UInt32.toNat_add]
          change (offset.toNat + 512) % 2 ^ 32 = offset.toNat + 512
          omega
        dsimp only
        rw [if_neg partly, MemoryRegion.asMutSlice, if_pos fits, Exec.ok_bind, delivered]
        refine ⟨⟨reads + 1, by rw [moved]; omega, after.next delivered⟩, ?_⟩
        dsimp only
        rw [moved]
        omega
    · rw [copyBody, if_neg more]
      exact ⟨_, _, rfl⟩
  · exact ⟨0, rfl, .start⟩
  · change (file.size.toNat - 0) / 512 < 2 ^ 23 + 1
    omega

section

variable (memory : ByteMemory)

def recordInitrd (initrdAddress : UInt64) (size : UInt32) : ByteMemory :=
  (memory.write (zeroPageStart + 0x218)
      (ByteMemory.littleEndian 4 initrdAddress.toUInt32.toNat)).write
    (zeroPageStart + 0x21c) (ByteMemory.littleEndian 4 size.toNat)

theorem recorded_recordInitrd (initrdAddress : UInt64) (size : UInt32) :
    recorded (recordInitrd memory initrdAddress size) =
      (initrdAddress.toUInt32.toNat, size.toNat) := by
  have whole (value : UInt32) : (UInt32.ofNat (value.toNat % 256 ^ 4)).toNat = value.toNat := by
    have bound : value.toNat < 256 ^ 4 := value.toNat_lt
    rw [Nat.mod_eq_of_lt bound, UInt32.ofNat_toNat]
  -- The size is written behind the place.
  have apart : ∀ index < 4,
      recordInitrd memory initrdAddress size (zeroPageStart + 0x218 + UInt64.ofNat index) =
        memory.write (zeroPageStart + 0x218)
          (ByteMemory.littleEndian 4 initrdAddress.toUInt32.toNat)
          (zeroPageStart + 0x218 + UInt64.ofNat index) := by
    intro index inside
    apply ByteMemory.write_of_outside
    rw [ByteMemory.length_littleEndian]
    revert index
    decide
  rw [recorded, ByteMemory.readUInt32, ByteMemory.readUInt32, ByteMemory.readNat_congr apart,
    recordInitrd, ByteMemory.readNat_write _ _ _ (by decide),
    ByteMemory.readNat_write _ _ _ (by decide), whole, whole]

theorem tableInPage_iff :
    TableInPage memory ↔
      0x2d0 + (memory (zeroPageStart + 0x1e8)).toUInt64 * 20 ≤ (4096 : UInt64) := by
  have few := (memory (zeroPageStart + 0x1e8)).toNat_lt
  have product : ((memory (zeroPageStart + 0x1e8)).toUInt64 * 20).toNat =
      (memory (zeroPageStart + 0x1e8)).toNat * 20 := by
    rw [UInt64.toNat_mul, UInt8.toNat_toUInt64]
    change (memory (zeroPageStart + 0x1e8)).toNat * 20 % 2 ^ 64 = _
    rw [Nat.mod_eq_of_lt (by omega)]
  have bound : (0x2d0 + (memory (zeroPageStart + 0x1e8)).toUInt64 * 20).toNat =
      0x2d0 + (memory (zeroPageStart + 0x1e8)).toNat * 20 := by
    rw [UInt64.toNat_add, product]
    change (0x2d0 + (memory (zeroPageStart + 0x1e8)).toNat * 20) % 2 ^ 64 = _
    rw [Nat.mod_eq_of_lt (by omega)]
  rw [TableInPage, UInt64.le_iff_toNat_le, bound, Nat.mul_comm]
  rfl

theorem readU32_addrMax :
    MemoryRegion.readU32 ⟨zeroPageStart, 4096⟩ memory 0x22c =
      .ok (memory.readUInt32 (zeroPageStart + 0x22c)) := rfl

theorem readU8_entries :
    MemoryRegion.readU8 ⟨zeroPageStart, 4096⟩ memory 0x1e8 =
      .ok (memory (zeroPageStart + 0x1e8)) := rfl

end

theorem loadInitrd_eq (file : Read State) (memory : ByteMemory) (state : State)
    (inPage : TableInPage memory) :
    loadInitrd file memory state =
      (Loop.run (copyBody file
          ⟨(request memory).top - file.size.toUInt64, file.size.toUInt64⟩)
        copyBudget (0, memory, state) >>= fun
      | (.error error, after, state) => .ok (.error error, after, state)
      | (.ok (), after, state) =>
        .ok (.ok (),
          recordInitrd after ((request memory).top - file.size.toUInt64) file.size, state)) := by
  have fits := (tableInPage_iff memory).mp inPage
  have below : ¬topOfUsableRam (request memory).limit (request memory).table >
      (request memory).limit := by
    rw [gt_iff_lt, UInt64.not_lt]
    rcases (request memory).top_cases with zero | ⟨entry, highest, same⟩
    · exact le_of_eq_of_le zero UInt64.zero_le
    · exact le_of_eq_of_le same.symm (UInt64.le_of_lt highest.2.1)
  have limit : (if memory.readUInt32 (zeroPageStart + 0x22c) = 0 then 0x37ffffff
      else (memory.readUInt32 (zeroPageStart + 0x22c)).toUInt64) = (request memory).limit := rfl
  have table : e820Table memory (zeroPageStart + 0x2d0)
      (memory (zeroPageStart + 0x1e8)).toNat = (request memory).table := rfl
  rw [loadInitrd, readU32_addrMax, Exec.ok_bind, readU8_entries, Exec.ok_bind,
    MemoryRegion.asMutSlice, if_pos fits, Exec.ok_bind]
  dsimp only
  rw [limit, table, if_neg below]
  rfl

theorem loadInitrd_outside (file : Read State) (memory : ByteMemory) (state : State)
    (outside : ¬TableInPage memory) : loadInitrd file memory state = .error .panicked := by
  have misfits := mt (tableInPage_iff memory).mpr outside
  rw [loadInitrd, readU32_addrMax, Exec.ok_bind, readU8_entries, Exec.ok_bind,
    MemoryRegion.asMutSlice, if_neg misfits, Exec.error_bind]

theorem recorded_of_loadInitrd {file : Read State} {memory after : ByteMemory}
    {state final : State} (inPage : TableInPage memory)
    (loaded : loadInitrd file memory state = .ok (.ok (), after, final)) :
    recorded after =
      (((request memory).top - file.size.toUInt64).toUInt32.toNat, file.size.toNat) := by
  rw [loadInitrd_eq file memory state inPage] at loaded
  cases copied : Loop.run (copyBody file
      ⟨(request memory).top - file.size.toUInt64, file.size.toUInt64⟩)
    copyBudget (0, memory, state) with
  | error fault => simp [copied] at loaded
  | ok outcome =>
    rcases outcome with ⟨error | ⟨⟩, middle, reached⟩
    · simp [copied] at loaded
    · simp only [copied, Exec.ok_bind, Except.ok.injEq, Prod.mk.injEq, true_and] at loaded
      rw [← loaded.1, recorded_recordInitrd]

theorem loadInitrd_succeeds {file : Read State} {state : State} (delivers : file.Delivers state)
    {memory : ByteMemory} (inPage : TableInPage memory) :
    ∃ after final, loadInitrd file memory state = .ok (.ok (), after, final) := by
  rcases copy_returns delivers ((request memory).top - file.size.toUInt64) memory with
    ⟨after, final, copied⟩
  rw [loadInitrd_eq file memory state inPage, copied]
  exact ⟨_, _, rfl⟩

/-! ## The places that are right -/

def blankFile (size : UInt32) : Read Unit where
  size := size
  read _ := .ok (.ok (512, Vector.replicate 512 0), ())
  seek _ _ := .ok (.ok (), ())

theorem blankFile_delivers (size : UInt32) : (blankFile size).Delivers () :=
  fun _ _ _ _ => ⟨_, _, _, rfl⟩

theorem PlacesInitrd.place_usable {memory : ByteMemory} {size : UInt32}
    (places : PlacesInitrd memory size) (inPage : TableInPage memory) :
    (request memory).Usable ((request memory).top - size.toUInt64).toUInt32.toNat
      size.toNat := by
  rcases loadInitrd_succeeds (blankFile_delivers size) inPage with ⟨after, final, loaded⟩
  have usable := (places.usable (blankFile size) () final after rfl loaded).2
  rw [recorded_of_loadInitrd inPage loaded] at usable
  exact usable

/-- An initrd is placed in usable RAM exactly if it fits in front of the last byte of the
RAM that ends highest below the limit. A table that leaves the zero page may be asked for
nothing. -/
theorem placesInitrd_iff_fitsBelow (memory : ByteMemory) (size : UInt32) (positive : 1 ≤ size) :
    PlacesInitrd memory size ↔
      (TableInPage memory ∧ (request memory).FitsBelow size.toNat) ∨
        (¬TableInPage memory ∧ ¬∃ start, (request memory).Usable start size.toNat) := by
  have some : 0 < size.toNat := UInt32.le_iff_toNat_le.mp positive
  rw [Request.fitsBelow_iff memory some]
  by_cases inPage : TableInPage memory
  · simp only [inPage, true_and, not_true, false_and, or_false]
    constructor
    · exact fun places => places.place_usable inPage
    · intro usable
      constructor
      · intro State file state final after same loaded
        rw [recorded_of_loadInitrd inPage loaded, same]
        exact ⟨rfl, usable⟩
      · intro _ State file state _ delivers
        exact loadInitrd_succeeds delivers inPage
  · simp only [inPage, false_and, not_false_eq_true, true_and, false_or]
    constructor
    · intro places room
      rcases places.succeeds room (blankFile size) () rfl (blankFile_delivers size) with
        ⟨after, final, loaded⟩
      rw [loadInitrd_outside _ memory () inPage] at loaded
      cases loaded
    · intro nowhere
      constructor
      · intro State file state final after _ loaded
        rw [loadInitrd_outside file memory state inPage] at loaded
        cases loaded
      · exact fun room => absurd room nowhere

def pageOf (entry : E820Entry) : ByteMemory :=
  (ByteMemory.write (fun _ => 0) (zeroPageStart + 0x1e8) [1]).write (zeroPageStart + 0x2d0)
    (ByteMemory.littleEndian 8 entry.addr.toNat ++ ByteMemory.littleEndian 8 entry.size.toNat ++
      ByteMemory.littleEndian 4 entry.entryType.toNat)

def lowRam : E820Entry := ⟨0x100000, 0x100000, e820Ram⟩

theorem placesInitrd_iff_fitsBelow_lowRam : PlacesInitrd (pageOf lowRam) 4096 := by
  have asked : request (pageOf lowRam) = ⟨[lowRam], 0x37ffffff⟩ := rfl
  refine (placesInitrd_iff_fitsBelow (pageOf lowRam) 4096 (by decide)).mpr (Or.inl ⟨?_, ?_⟩)
  · change 0x2d0 + 20 * 1 ≤ 4096
    decide
  · rw [asked]
    have ram : Request.Ram ⟨[lowRam], 0x37ffffff⟩ lowRam := ⟨List.mem_singleton_self lowRam, rfl⟩
    refine ⟨lowRam, ⟨ram, by decide, ?_⟩, by decide, lowRam, ram, by decide, by decide⟩
    intro other otherRam _
    rw [List.mem_singleton.mp otherRam.1]
    exact UInt64.le_refl _

def firstGib : E820Entry := ⟨0, 0x40000000, e820Ram⟩

/-- RAM that goes on behind the limit does not count, so there is no highest one, and an
initrd of one page is placed at the end of the first 4 GiB, where there is no RAM. -/
theorem not_placesInitrd_firstGib : ¬PlacesInitrd (pageOf firstGib) 4096 := by
  have asked : request (pageOf firstGib) = ⟨[firstGib], 0x37ffffff⟩ := rfl
  intro places
  have usable := places.place_usable (by
    change 0x2d0 + 20 * 1 ≤ 4096
    decide)
  rw [asked] at usable
  exact absurd usable.2 (by decide)

end HypervisorFirmware.BzImage
