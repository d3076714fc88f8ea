import Mathlib.Data.List.Perm.Basic
import HypervisorFirmware.Efi.RelocationTable
import HypervisorFirmware.Fat.Read
import HypervisorFirmware.Mem.MemoryRegion

/-! # Loading an image from a file

`pe.rs` copies an image from a file and relocates it. The words of a relocation block are
all taken as entries, those of its header as well. -/

namespace HypervisorFirmware.Pe

open Fat (Read Sector)
open Efi (BlockAt DirectoryKept RelocationBlock TableAt)

/-! ## Headers -/

inductive Error
  | fileError
  | invalidExecutable
  deriving DecidableEq, Repr

structure Section where
  name : List UInt8
  virtSize : UInt32
  virtAddress : UInt32
  rawSize : UInt32
  rawOffset : UInt32
  deriving DecidableEq

def Section.ofMemory (memory : ByteMemory) (address : UInt64) : Section where
  name := memory.bytes address 8
  virtSize := memory.readUInt32 (address + 8)
  virtAddress := memory.readUInt32 (address + 12)
  rawSize := memory.readUInt32 (address + 16)
  rawOffset := memory.readUInt32 (address + 20)

structure Headers where
  imageBase : UInt64
  imageSize : UInt32
  entryPoint : UInt32
  sizeOfHeaders : UInt32
  sections : List Section
  deriving DecidableEq

/-- The checks on the first 1024 bytes. The table of sections is not checked: it may start
behind these bytes, or leave them. -/
def headersOf (data : ByteMemory) : Exec (Except Error Headers) :=
  let peHeaderOffset := data.readUInt32 0x3c
  let pe := peHeaderOffset.toUInt64
  let optional := pe + 24
  let numSections := data.readUInt16 (pe + 6)
  let optionalHeaderSize := data.readUInt16 (pe + 20)
  let sections := optional + optionalHeaderSize.toUInt64
  if data.readUInt16 0 ≠ 0x5a4d then .ok (.error .invalidExecutable)
  else if peHeaderOffset ≥ 512 then .ok (.error .invalidExecutable)
  else if data.readUInt32 pe ≠ 0x4550 then .ok (.error .invalidExecutable)
  else if data.readUInt16 (pe + 4) ≠ 0x8664 then .ok (.error .invalidExecutable)
  else if data.readUInt16 optional ≠ 0x20b then .ok (.error .invalidExecutable)
  else if sections > 1024 then .error .panicked
  else if sections.toNat + 40 * numSections.toNat > 1024 then .error .undefined
  else .ok (.ok {
    imageBase := data.readUInt64 (optional + 24)
    imageSize := data.readUInt32 (optional + 56)
    entryPoint := data.readUInt32 (optional + 16)
    sizeOfHeaders := data.readUInt32 (optional + 60)
    sections := (List.range numSections.toNat).map fun index =>
      .ofMemory data (sections + UInt64.ofNat (40 * index)) })

/-! ## Copying -/

abbrev Load (State : Type) := ExceptT Error (StateT (Buffer × State) Exec)

def Section.size (header : Section) : UInt32 := min header.rawSize header.virtSize

section Copying

variable {State : Type} (file : Read State)

def readSector : Load State Sector := do
  let (dest, state) ← get
  match ← file.read state with
  | (.ok (_, sector), state) =>
    set (dest, state)
    return sector
  | (.error _, state) =>
    set (dest, state)
    throw .fileError

def seekTo (position : UInt32) : Load State Unit := do
  let (dest, state) ← get
  match ← file.seek position state with
  | (.ok (), state) => set (dest, state)
  | (.error _, state) =>
    set (dest, state)
    throw .fileError

def loadedRegion (imageSize : UInt32) (dest : Buffer) : MemoryRegion :=
  ⟨dest.base, imageSize.toUInt64⟩

def store (address : UInt64) (bytes : List UInt8) : Load State Unit := do
  let (dest, state) ← get
  set (← dest.write address bytes, state)

def copyHeaders (headers : Headers) : Load State Unit :=
  (List.range ((headers.sizeOfHeaders.toNat + 511) / 512)).forM fun index => do
    let region := loadedRegion headers.imageSize (← get).1
    let address ← region.asMutSlice 1 (UInt64.ofNat (512 * index)) 512
    let sector ← readSector file
    store address sector.toList

def copySection (imageSize : UInt32) (header : Section) : Load State Unit := do
  (List.range header.virtSize.toNat).forM fun x => do
    let region := loadedRegion imageSize (← get).1
    let address ← region.valueAt 1 (UInt64.ofNat x + header.virtAddress.toUInt64)
    store address [0]
  if header.rawOffset % 512 ≠ 0 then return ()
  seekTo file header.rawOffset
  (List.range ((header.size.toNat + 511) / 512)).forM fun index => do
    let sectionOffset := UInt32.ofNat (512 * index)
    let remainingBytes := min (header.size - sectionOffset) 512
    let sector ← readSector file
    let region := loadedRegion imageSize (← get).1
    let address ← region.asMutSlice 1 (header.virtAddress + sectionOffset).toUInt64
      remainingBytes.toUInt64
    store address (sector.toList.take remainingBytes.toNat)

def copyImage : Load State Headers := do
  let first ← readSector file
  let second ← readSector file
  let data : ByteMemory := fun address => (first.toList ++ second.toList).getD address.toNat 0
  let headers ← ExceptT.mk (liftM (headersOf data))
  seekTo file 0
  copyHeaders file headers
  headers.sections.forM (copySection file headers.imageSize)
  return headers

end Copying

/-! ## Relocation -/

def readIn (region : MemoryRegion) (width : Nat) (decode : ByteMemory → UInt64 → α)
    (dest : Buffer) (offset : UInt64) : Exec α := do
  dest.load (← region.valueAt (UInt64.ofNat width) offset) width decode

def relocateEntry (delta : UInt64) (imageSize pageRva : UInt32) (dest : Buffer)
    (entry : UInt16) : Exec Buffer :=
  if entry >>> 12 = 10 then do
    let location := (pageRva + (entry &&& 0xfff).toUInt32).toUInt64
    let region := loadedRegion imageSize dest
    let value ← readIn region 8 ByteMemory.readUInt64 dest location
    let address ← region.valueAt 8 location
    -- The sum wraps at the width of the number.
    dest.write address (ByteMemory.littleEndian 8 (value.toNat + delta.toNat))
  else .ok dest

def Section.region (header : Section) (dest : Buffer) : MemoryRegion :=
  ⟨dest.base + header.virtAddress.toUInt64, header.size.toUInt64⟩

def entriesBody (delta : UInt64) (imageSize : UInt32) (table : Section) (offset : UInt64)
    (pageRva blockSize : UInt32) : UInt32 × Buffer → Exec ((UInt32 × Buffer) ⊕ Buffer)
  | (blockOffset, dest) =>
    if blockOffset < blockSize then do
      let entry ← readIn (table.region dest) 2 ByteMemory.readUInt16 dest
        (offset + blockOffset.toUInt64)
      return .inl (blockOffset + 2, ← relocateEntry delta imageSize pageRva dest entry)
    else .ok (.inr dest)

def blocksBody (fuel : Nat) (delta : UInt64) (imageSize : UInt32) (table : Section) :
    UInt32 × UInt64 × Buffer → Exec ((UInt32 × UInt64 × Buffer) ⊕ Buffer)
  | (remaining, offset, dest) =>
    if 0 < remaining then do
      let pageRva ← readIn (table.region dest) 4 ByteMemory.readUInt32 dest offset
      let blockSize ← readIn (table.region dest) 4 ByteMemory.readUInt32 dest (offset + 4)
      let dest ← Loop.run (entriesBody delta imageSize table offset pageRva blockSize) fuel
        (0, dest)
      return .inl (remaining - blockSize, offset + blockSize.toUInt64, dest)
    else .ok (.inr dest)

def Section.isReloc (header : Section) : Bool :=
  header.name.take 6 == [0x2e, 0x72, 0x65, 0x6c, 0x6f, 0x63]

def relocateSection (fuel : Nat) (delta : UInt64) (imageSize : UInt32) (dest : Buffer)
    (header : Section) : Exec Buffer := do
  let _ ← (loadedRegion imageSize dest).asMutSlice 1 header.virtAddress.toUInt64
    header.size.toUInt64
  Loop.run (blocksBody fuel delta imageSize header) fuel (header.size, 0, dest)

def relocate (fuel : Nat) (headers : Headers) (dest : Buffer) : Exec Buffer :=
  headers.sections.foldlM
    (fun dest header =>
      if header.isReloc then
        relocateSection fuel (dest.base - headers.imageBase) headers.imageSize dest header
      else .ok dest)
    dest

def load {State : Type} (file : Read State) (state : State) (dest : Buffer) (fuel : Nat) :
    Exec (Except Error (UInt64 × UInt64) × Buffer × State) := do
  match ← (copyImage file).run.run (dest, state) with
  | (.error error, dest, state) => return (.error error, dest, state)
  | (.ok headers, dest, state) =>
    let dest ← relocate fuel headers dest
    return (.ok (dest.base + headers.entryPoint.toUInt64, headers.imageSize.toUInt64), dest,
      state)

/-! ## Exact relocation -/

/-- The site of an entry of the type `DIR64`, and what is to be added to it. -/
def dir64 (delta : UInt64) (page : UInt32) (entry : UInt16) : Option Patch :=
  if entry >>> 12 = 10 then
    some ⟨(page + (entry &&& 0xfff).toUInt32).toNat, 8, delta.toNat⟩
  else none

def listed (delta : UInt64) (blocks : List RelocationBlock) : List Patch :=
  blocks.flatMap fun block => block.entries.filterMap (dir64 delta block.page)

def Section.start (header : Section) : Nat := header.virtAddress.toNat

def Section.stop (header : Section) : Nat := header.start + header.size.toNat

def OffTable (table : Section) (patch : Patch) : Prop :=
  patch.position + patch.width ≤ table.start ∨ table.stop ≤ patch.position

instance (table : Section) (patch : Patch) : Decidable (OffTable table patch) :=
  inferInstanceAs (Decidable (_ ∨ _))

structure WellFormed (headers : Headers) (layout : Buffer) (table : Section)
    (blocks : List RelocationBlock) : Prop where
  only : headers.sections.filter Section.isReloc = [table]
  room : headers.imageSize.toNat ≤ layout.size
  inside : table.stop ≤ headers.imageSize.toNat
  filled : TableAt layout table.start table.stop blocks
  sites : ∀ patch ∈ listed (layout.base - headers.imageBase) blocks,
    patch.Inside headers.imageSize.toNat ∧ OffTable table patch
  apart : (listed (layout.base - headers.imageBase) blocks).Pairwise Patch.Apart

/-- The loader returns, and its layout differs by the listed additions. -/
def RelocatesExactly {State : Type} (file : Read State) (state : State) (dest : Buffer)
    (headers : Headers) (layout : Buffer) (blocks : List RelocationBlock) : Prop :=
  ∃ final, SettlesTo (load file state dest)
    (.ok (.ok (layout.base + headers.entryPoint.toUInt64, headers.imageSize.toUInt64),
      layout.patched (listed (layout.base - headers.imageBase) blocks), final))

def headerWords (block : RelocationBlock) : List UInt16 :=
  [block.page.toUInt16, (block.page >>> 16).toUInt16, (UInt32.ofNat block.size).toUInt16,
    (UInt32.ofNat block.size >>> 16).toUInt16]

/-- The sites that the words of the headers would list, if they were entries. -/
def stray (delta : UInt64) (blocks : List RelocationBlock) : List Patch :=
  blocks.flatMap fun block => (headerWords block).filterMap (dir64 delta block.page)

/-- The headers have no words that look like entries, or what these ask for is to add
nothing inside of the image. -/
def Spared (delta : UInt64) (imageSize : UInt32) (blocks : List RelocationBlock) : Prop :=
  stray delta blocks = [] ∨
    delta = 0 ∧ ∀ patch ∈ stray delta blocks, patch.Inside imageSize.toNat

/-- The words of the headers point neither into the table nor into a field of another
entry, so that no addition undoes another one. -/
structure Uncancelled (table : Section) (sites fields : List Patch) : Prop where
  off : ∀ patch ∈ sites, OffTable table patch
  apart : (sites ++ fields).Pairwise Patch.Apart

/-! ## Words -/

def WordsAt (dest : Buffer) : (position : Nat) → List UInt16 → Prop
  | _, [] => True
  | position, word :: rest =>
    dest.number position 2 = word.toNat ∧ WordsAt dest (position + 2) rest

theorem wordsAt_of_getElem {dest : Buffer} {position : Nat} {words : List UInt16}
    (all : ∀ index, (inside : index < words.length) →
      dest.number (position + 2 * index) 2 = words[index].toNat) :
    WordsAt dest position words := by
  induction words generalizing position with
  | nil => trivial
  | cons word rest induction =>
    refine ⟨all 0 (Nat.succ_pos _), induction fun index inside => ?_⟩
    have here := all (index + 1) (Nat.succ_lt_succ inside)
    rwa [Nat.mul_add, Nat.add_comm (2 * index), ← Nat.add_assoc] at here

theorem number_four (dest : Buffer) (position : Nat) :
    dest.number position 4 = dest.number position 2 + 2 ^ 16 * dest.number (position + 2) 2 := by
  simp only [Buffer.number, Nat.add_assoc, Nat.reduceAdd]
  omega

theorem words_of_number {dest : Buffer} {position : Nat} {value : UInt32}
    (number : dest.number position 4 = value.toNat) :
    dest.number position 2 = value.toUInt16.toNat ∧
      dest.number (position + 2) 2 = (value >>> 16).toUInt16.toNat := by
  have low := dest.number_lt position 2
  have high := dest.number_lt (position + 2) 2
  rw [number_four] at number
  rw [UInt32.toNat_toUInt16, UInt32.toNat_toUInt16, UInt32.toNat_shiftRight,
    Nat.shiftRight_eq_div_pow]
  change _ = _ % 2 ^ 16 ∧ _ = _ / 2 ^ 16 % 2 ^ 16
  omega

theorem BlockAt.words {dest : Buffer} {position : Nat} {block : RelocationBlock}
    (blockAt : BlockAt dest position block) :
    WordsAt dest position (headerWords block ++ block.entries) := by
  have bound := dest.number_lt (position + 4) 4
  rw [blockAt.size] at bound
  have size : dest.number (position + 4) 4 = (UInt32.ofNat block.size).toNat := by
    rw [blockAt.size, UInt32.toNat_ofNat', Nat.mod_eq_of_lt (show block.size < 2 ^ 32 from bound)]
  have page := words_of_number blockAt.page
  have size := words_of_number size
  exact ⟨page.1, page.2, size.1, size.2, wordsAt_of_getElem blockAt.entries⟩

/-! ## The loops -/

instance (patch : Patch) (size : Nat) : Decidable (patch.Inside size) :=
  inferInstanceAs (Decidable (_ ≤ _))

theorem ofNat_toNat (value : UInt32) : UInt64.ofNat value.toNat = value.toUInt64 := by
  apply UInt64.toNat_inj.mp
  rw [UInt64.toNat_ofNat', UInt32.toNat_toUInt64, Nat.mod_eq_of_lt]
  exact Nat.lt_trans value.toNat_lt (by decide)

def applyWithin (imageSize : UInt32) (dest : Buffer) (patch : Patch) : Exec Buffer :=
  if patch.Inside imageSize.toNat then .ok (patch.apply dest) else .error .panicked

section Loops

variable {delta : UInt64} {imageSize : UInt32} {table : Section} {layout dest : Buffer}

theorem relocateEntry_eq (room : imageSize.toNat ≤ dest.size) (page : UInt32) (entry : UInt16) :
    relocateEntry delta imageSize page dest entry =
      (dir64 delta page entry).toList.foldlM (applyWithin imageSize) dest := by
  rw [relocateEntry, dir64]
  by_cases type : entry >>> 12 = 10
  · rw [if_pos type, if_pos type]
    generalize page + (entry &&& 0xfff).toUInt32 = site
    have bound := site.toNat_lt
    have checked := (loadedRegion imageSize dest).valueAt_ofNat (show 0 < 8 by decide)
      (show site.toNat + 8 ≤ 2 ^ 64 by omega)
    rw [show (loadedRegion imageSize dest).length.toNat = imageSize.toNat from
      UInt32.toNat_toUInt64 _, ofNat_toNat] at checked
    rw [Option.toList_some, List.foldlM_cons, applyWithin]
    dsimp only [readIn]
    rw [show (8 : UInt64) = UInt64.ofNat 8 from rfl]
    by_cases inside : site.toNat + 8 ≤ imageSize.toNat
    · have fits : Patch.Inside ⟨site.toNat, 8, delta.toNat⟩ imageSize.toNat := inside
      have contains := Efi.contains_position dest (Nat.le_trans inside room)
        (show site.toNat < 2 ^ 64 by omega)
      have number : dest.number site.toNat 8 < 2 ^ 64 := dest.number_lt _ 8
      rw [if_pos inside] at checked
      rw [checked, if_pos fits, Exec.ok_bind, Exec.ok_bind, ← ofNat_toNat]
      dsimp only [loadedRegion]
      rw [Buffer.load_inside contains, Exec.ok_bind, Exec.ok_bind, ByteMemory.readUInt64,
        dest.readNat_memory (by omega), Buffer.write, ByteMemory.length_littleEndian,
        if_pos contains, Buffer.offset_base_add, UInt64.toNat_ofNat', UInt64.toNat_ofNat',
        Nat.mod_eq_of_lt number, Nat.mod_eq_of_lt (by omega)]
      rfl
    · have leaves : ¬Patch.Inside ⟨site.toNat, 8, delta.toNat⟩ imageSize.toNat := inside
      rw [if_neg inside] at checked
      rw [checked, if_neg leaves]
      rfl
  · rw [if_neg type, if_neg type]
    rfl

theorem readIn_table (room : table.stop ≤ dest.size) {width offset : Nat}
    (inside : offset + width ≤ table.size.toNat) (some : 0 < width) {α : Type}
    (decode : ByteMemory → UInt64 → α) :
    readIn (table.region dest) width decode dest (UInt64.ofNat offset) =
      .ok (decode dest.memory (dest.base + UInt64.ofNat (table.start + offset))) := by
  have bound := table.size.toNat_lt
  have start := table.virtAddress.toNat_lt
  unfold Section.stop at room
  have address : dest.base + table.virtAddress.toUInt64 + UInt64.ofNat offset =
      dest.base + UInt64.ofNat (table.start + offset) := by
    rw [UInt64.add_assoc, UInt64.ofNat_add, Section.start, ofNat_toNat]
  rw [readIn, MemoryRegion.valueAt_ofNat _ some (by omega), Section.region]
  dsimp only
  rw [UInt32.toNat_toUInt64, if_pos inside, Exec.ok_bind, address,
    Buffer.load_inside (Efi.contains_position dest (by omega) (by unfold Section.start; omega))]

theorem kept_apply {patch : Patch} (kept : DirectoryKept table.start table.stop layout dest)
    (harmless : patch.amount = 0 ∨ OffTable table patch) :
    DirectoryKept table.start table.stop layout (patch.apply dest) := by
  rcases harmless with nothing | off
  · rwa [Patch.apply_zero dest nothing]
  · refine ⟨kept.same.trans (Patch.apply_sameObject dest patch), fun index behind inside => ?_⟩
    rw [Patch.byte_apply_of_not_covers, kept.bytes index behind inside]
    unfold OffTable at off
    unfold Patch.Covers
    omega

theorem kept_foldlM {patches : List Patch} {next : Buffer}
    (kept : DirectoryKept table.start table.stop layout dest)
    (harmless : ∀ patch ∈ patches, patch.amount = 0 ∨ OffTable table patch)
    (applied : patches.foldlM (applyWithin imageSize) dest = .ok next) :
    DirectoryKept table.start table.stop layout next := by
  induction patches generalizing dest with
  | nil =>
    cases applied
    exact kept
  | cons patch rest induction =>
    rw [List.forall_mem_cons] at harmless
    rw [List.foldlM_cons, applyWithin] at applied
    split at applied
    · exact induction (kept_apply kept harmless.1) harmless.2 applied
    · cases applied

theorem entries_run {page blockSize : UInt32} {offset : Nat} {words : List UInt16}
    (room : imageSize.toNat ≤ layout.size) (filled : table.stop ≤ imageSize.toNat)
    (fits : offset + blockSize.toNat ≤ table.size.toNat)
    (harmless : ∀ patch ∈ words.filterMap (dir64 delta page),
      patch.amount = 0 ∨ OffTable table patch)
    {blockOffset : UInt32} (left : blockOffset.toNat + 2 * words.length = blockSize.toNat)
    (wordsAt : WordsAt layout (table.start + offset + blockOffset.toNat) words)
    (kept : DirectoryKept table.start table.stop layout dest) {fuel : Nat}
    (enough : words.length < fuel) :
    Loop.run (entriesBody delta imageSize table (UInt64.ofNat offset) page blockSize) fuel
        (blockOffset, dest) =
      (words.filterMap (dir64 delta page)).foldlM (applyWithin imageSize) dest := by
  have small := blockSize.toNat_lt
  induction words generalizing blockOffset dest fuel with
  | nil =>
    obtain ⟨fuel, rfl⟩ := Nat.exists_eq_add_of_lt enough
    have ended : ¬ blockOffset < blockSize := by
      rw [UInt32.lt_iff_toNat_lt]
      simp only [List.length_nil] at left
      omega
    rw [Loop.run, entriesBody, if_neg ended]
    rfl
  | cons word rest induction =>
    obtain ⟨fuel, rfl⟩ := Nat.exists_eq_add_of_lt enough
    rw [List.length_cons] at left
    rcases wordsAt with ⟨here, wordsAt⟩
    have more : blockOffset < blockSize := UInt32.lt_iff_toNat_lt.mpr (by omega)
    have size := kept.same.size
    have stop : table.stop = table.start + table.size.toNat := rfl
    have place : UInt64.ofNat offset + blockOffset.toUInt64 =
        UInt64.ofNat (offset + blockOffset.toNat) := by
      rw [UInt64.ofNat_add, ofNat_toNat]
    have read : dest.memory.readUInt16
        (dest.base + UInt64.ofNat (table.start + (offset + blockOffset.toNat))) = word := by
      have bound : dest.base.toNat + dest.size ≤ 2 ^ 64 := dest.bounded
      rw [← Nat.add_assoc]
      apply Efi.readUInt16_number dest (by omega)
      rw [kept.number (by omega) (by omega), here]
    have next : (blockOffset + 2).toNat = blockOffset.toNat + 2 := by
      rw [UInt32.toNat_add]
      exact Nat.mod_eq_of_lt (by change _ + 2 < _; omega)
    have split : (word :: rest).filterMap (dir64 delta page) =
        (dir64 delta page word).toList ++ rest.filterMap (dir64 delta page) := by
      cases found : dir64 delta page word <;> simp [found]
    rw [split, List.forall_mem_append] at harmless
    rw [Loop.run, entriesBody, if_pos more, place, readIn_table (by omega) (by omega) (by decide),
      Exec.ok_bind, read, relocateEntry_eq (by omega), split, List.foldlM_append]
    cases applied : (dir64 delta page word).toList.foldlM (applyWithin imageSize) dest with
    | error fault => rfl
    | ok after =>
      apply induction harmless.2 (by omega) _ (kept_foldlM kept harmless.1 applied)
        (by rw [List.length_cons]; omega)
      rwa [next, ← Nat.add_assoc]

def allPatches (delta : UInt64) (blocks : List RelocationBlock) : List Patch :=
  blocks.flatMap fun block =>
    (headerWords block ++ block.entries).filterMap (dir64 delta block.page)

theorem blocks_run {position : Nat} {blocks : List RelocationBlock}
    (room : imageSize.toNat ≤ layout.size) (filled : table.stop ≤ imageSize.toNat)
    (harmless : ∀ patch ∈ allPatches delta blocks, patch.amount = 0 ∨ OffTable table patch)
    (tableAt : TableAt layout position table.stop blocks) (behind : table.start ≤ position)
    (kept : DirectoryKept table.start table.stop layout dest) {inner fuel : Nat}
    (enough : blocks.length < fuel) (large : table.size.toNat < inner) :
    Loop.run (blocksBody inner delta imageSize table) fuel
        (UInt32.ofNat (table.stop - position), UInt64.ofNat (position - table.start), dest) =
      (allPatches delta blocks).foldlM (applyWithin imageSize) dest := by
  have small := table.size.toNat_lt
  have stop : table.stop = table.start + table.size.toNat := rfl
  generalize last : table.stop = final at tableAt
  induction tableAt generalizing dest fuel with
  | @nil position =>
    obtain ⟨fuel, rfl⟩ := Nat.exists_eq_add_of_lt enough
    subst last
    rw [Loop.run, blocksBody, Nat.sub_self, if_neg (by decide)]
    rfl
  | @cons position final block rest blockAt tableAt induction =>
    obtain ⟨fuel, rfl⟩ := Nat.exists_eq_add_of_lt enough
    subst last
    have ordered := tableAt.le
    have same := kept.same.size
    have words : 2 * (headerWords block ++ block.entries).length = block.size := by
      rw [List.length_append, RelocationBlock.size, Nat.mul_add]
      rfl
    have least : 8 ≤ block.size := Nat.le_add_right 8 _
    have bound : dest.base.toNat + dest.size ≤ 2 ^ 64 := dest.bounded
    have header := blockAt.kept kept behind ordered
    have blockSize : (UInt32.ofNat block.size).toNat = block.size := by
      rw [UInt32.toNat_ofNat', Nat.mod_eq_of_lt (by omega)]
    have number (distance : Nat) {value : UInt32} (inside : distance + 4 ≤ 8)
        (read : dest.number (position + distance) 4 = value.toNat) :
        readIn (table.region dest) 4 ByteMemory.readUInt32 dest
          (UInt64.ofNat (position - table.start + distance)) = .ok value := by
      rw [readIn_table (by omega) (by omega) (by decide)]
      congr 1
      apply Efi.readUInt32_number dest (by omega)
      rw [← read]
      congr 1
      omega
    have page := number 0 (by decide) header.page
    have size := number 4 (by decide) (header.size.trans blockSize.symm)
    have more : 0 < UInt32.ofNat (table.stop - position) := by
      rw [UInt32.lt_iff_toNat_lt, UInt32.toNat_ofNat', Nat.mod_eq_of_lt (by omega)]
      change 0 < _
      omega
    have patches : allPatches delta (block :: rest) =
        (headerWords block ++ block.entries).filterMap (dir64 delta block.page) ++
          allPatches delta rest := rfl
    rw [patches, List.forall_mem_append] at harmless
    have entries : Loop.run (entriesBody delta imageSize table
        (UInt64.ofNat (position - table.start)) block.page (UInt32.ofNat block.size)) inner
          (0, dest) =
        ((headerWords block ++ block.entries).filterMap (dir64 delta block.page)).foldlM
          (applyWithin imageSize) dest := by
      apply entries_run room filled (by omega) harmless.1
      · rw [blockSize, ← words]
        exact Nat.zero_add _
      · rw [Nat.add_sub_cancel' behind]
        exact BlockAt.words blockAt
      · exact kept
      · omega
    have remaining : UInt32.ofNat (table.stop - position) - UInt32.ofNat block.size =
        UInt32.ofNat (table.stop - (position + block.size)) := by
      rw [← UInt32.ofNat_sub (by omega), Nat.sub_sub]
    have offset : UInt64.ofNat (position - table.start) + (UInt32.ofNat block.size).toUInt64 =
        UInt64.ofNat (position + block.size - table.start) := by
      rw [← ofNat_toNat, blockSize, ← UInt64.ofNat_add, Nat.sub_add_comm behind]
    rw [Nat.add_zero] at page
    rw [UInt64.ofNat_add, show UInt64.ofNat 4 = 4 from rfl] at size
    rw [Loop.run, blocksBody, if_pos more, page, Exec.ok_bind, size, Exec.ok_bind, entries,
      patches, List.foldlM_append]
    cases applied : ((headerWords block ++ block.entries).filterMap
      (dir64 delta block.page)).foldlM (applyWithin imageSize) dest with
    | error fault => rfl
    | ok after =>
      rw [Exec.ok_bind, remaining, offset]
      exact induction harmless.2 (by omega) (kept_foldlM kept harmless.1 applied)
        (by rw [List.length_cons]; omega) rfl

end Loops

/-! ## The whole image -/

theorem foldlM_applyWithin (imageSize : UInt32) (dest : Buffer) (patches : List Patch) :
    patches.foldlM (applyWithin imageSize) dest =
      if ∀ patch ∈ patches, patch.Inside imageSize.toNat then .ok (dest.patched patches)
      else .error .panicked :=
  Exec.foldlM_checked (fun _ => True) (fun patch : Patch => patch.Inside imageSize.toNat)
    Patch.apply .panicked (fun _ _ _ => trivial) patches (fun _ _ _ _ => rfl) dest trivial

theorem amount_of_dir64 {delta : UInt64} {page : UInt32} {entry : UInt16} {patch : Patch}
    (found : dir64 delta page entry = some patch) :
    patch.amount = delta.toNat ∧ patch.width = 8 := by
  rw [dir64] at found
  split at found <;> cases found
  exact ⟨rfl, rfl⟩

theorem allPatches_perm (delta : UInt64) (blocks : List RelocationBlock) :
    (stray delta blocks ++ listed delta blocks).Perm (allPatches delta blocks) := by
  simp only [allPatches, List.filterMap_append]
  exact List.flatMap_append_perm blocks _ _

theorem mem_allPatches {delta : UInt64} {blocks : List RelocationBlock} {patch : Patch} :
    patch ∈ allPatches delta blocks ↔ patch ∈ stray delta blocks ∨ patch ∈ listed delta blocks := by
  rw [← (allPatches_perm delta blocks).mem_iff, List.mem_append]

section Image

variable {State : Type} {file : Read State} {state final : State} {dest layout : Buffer}
  {headers : Headers} {table : Section} {blocks : List RelocationBlock}

theorem load_settles
    (copied : (copyImage file).run.run (dest, state) = .ok (.ok headers, layout, final))
    (formed : WellFormed headers layout table blocks)
    (harmless : ∀ patch ∈ stray (layout.base - headers.imageBase) blocks,
      layout.base - headers.imageBase = 0 ∨ OffTable table patch) :
    SettlesTo (load file state dest)
      (if ∀ patch ∈ stray (layout.base - headers.imageBase) blocks,
          patch.Inside headers.imageSize.toNat then
        .ok (.ok (layout.base + headers.entryPoint.toUInt64, headers.imageSize.toUInt64),
          layout.patched (allPatches (layout.base - headers.imageBase) blocks), final)
      else .error .panicked) := by
  have ordered : table.start ≤ table.stop := Nat.le_add_right _ _
  have inside := formed.inside
  have harmless : ∀ patch ∈ allPatches (layout.base - headers.imageBase) blocks,
      patch.amount = 0 ∨ OffTable table patch := by
    intro patch member
    rcases mem_allPatches.mp member with inHeader | inEntries
    · rcases List.mem_flatMap.mp inHeader with ⟨block, _, found⟩
      rcases List.mem_filterMap.mp found with ⟨word, _, found⟩
      apply (harmless patch inHeader).imp_left
      intro zero
      rw [(amount_of_dir64 found).1, zero]
      rfl
    · exact Or.inr (formed.sites patch inEntries).2
  have all : (∀ patch ∈ allPatches (layout.base - headers.imageBase) blocks,
      patch.Inside headers.imageSize.toNat) ↔
      ∀ patch ∈ stray (layout.base - headers.imageBase) blocks,
        patch.Inside headers.imageSize.toNat := by
    simp only [mem_allPatches, or_imp, forall_and, and_iff_left_iff_imp]
    exact fun _ patch member => (formed.sites patch member).1
  refine ⟨max (blocks.length + 1) (table.size.toNat + 1), fun fuel many => ?_⟩
  have run := blocks_run formed.room formed.inside harmless formed.filled (Nat.le_refl _)
    ⟨.refl layout, fun _ _ _ => rfl⟩ (show blocks.length < fuel by omega)
    (show table.size.toNat < fuel by omega)
  have start : UInt32.ofNat (table.stop - table.start) = table.size := by
    rw [Section.stop, Nat.add_sub_cancel_left, UInt32.ofNat_toNat]
  have slice : (loadedRegion headers.imageSize layout).asMutSlice 1 table.virtAddress.toUInt64
      table.size.toUInt64 = .ok (layout.base + table.virtAddress.toUInt64) := by
    have sum : (table.virtAddress.toUInt64 + table.size.toUInt64).toNat = table.stop := by
      have bound := headers.imageSize.toNat_lt
      rw [UInt64.toNat_add, UInt32.toNat_toUInt64, UInt32.toNat_toUInt64]
      exact Nat.mod_eq_of_lt (show table.stop < 2 ^ 64 by omega)
    rw [MemoryRegion.asMutSlice, UInt64.mul_one, if_pos]
    · rfl
    · rw [UInt64.le_iff_toNat_le, sum]
      exact inside.trans_eq (UInt32.toNat_toUInt64 _).symm
  have relocated : relocate fuel headers layout =
      (allPatches (layout.base - headers.imageBase) blocks).foldlM
        (applyWithin headers.imageSize) layout := by
    have only : relocate fuel headers layout = [table].foldlM
        (fun dest header =>
          relocateSection fuel (dest.base - headers.imageBase) headers.imageSize dest header)
        layout := by
      rw [← formed.only]
      exact List.foldlM_filter.symm
    rw [only, List.foldlM_cons, relocateSection, slice, Exec.ok_bind, ← run, start, Nat.sub_self]
    exact bind_pure _
  rw [load, copied, Exec.ok_bind]
  dsimp only
  rw [relocated, foldlM_applyWithin]
  simp only [all]
  split
  · rw [Exec.ok_bind, (layout.patched_sameObject _).base]
    rfl
  · rfl

variable {delta : UInt64}

theorem allPatches_of_none (none : stray delta blocks = []) :
    allPatches delta blocks = listed delta blocks := by
  rw [stray, List.flatMap_eq_nil_iff] at none
  rw [allPatches, listed, List.flatMap_def, List.flatMap_def]
  congr 1
  apply List.map_congr_left
  intro block member
  rw [List.filterMap_append, none block member, List.nil_append]

theorem patched_ne_of_apart (moved : delta ≠ 0)
    (inside : ∀ patch ∈ allPatches delta blocks, patch.Inside layout.size)
    (apart : (stray delta blocks ++ listed delta blocks).Pairwise Patch.Apart) {patch : Patch}
    (member : patch ∈ stray delta blocks) :
    layout.patched (allPatches delta blocks) ≠ layout.patched (listed delta blocks) := by
  intro same
  rcases List.mem_flatMap.mp member with ⟨block, _, found⟩
  rcases List.mem_filterMap.mp found with ⟨word, _, found⟩
  rcases amount_of_dir64 found with ⟨amount, width⟩
  have all := ((allPatches_perm delta blocks).pairwise_iff Or.symm).mp apart
  have added := layout.number_patched all inside (mem_allPatches.mpr (.inl member))
  have others : ∀ other ∈ listed delta blocks, other.Apart patch := fun other inEntries =>
    ((List.pairwise_append.mp apart).2.2 patch member other inEntries).symm
  have kept := layout.number_patched_of_apart others
  have bound := layout.number_lt patch.position patch.width
  have small := delta.toNat_lt
  rw [same, kept, amount, width] at added
  rw [width] at bound
  apply moved
  apply UInt64.toNat_inj.mp
  change delta.toNat = 0
  omega

/-- An image is relocated exactly, if the headers of its table have no words that look like
entries. Such words do not cancel each other, unless they are for the same site or for the
table itself. -/
theorem relocatesExactly_of_spared
    (copied : (copyImage file).run.run (dest, state) = .ok (.ok headers, layout, final))
    (formed : WellFormed headers layout table blocks) :
    (Spared (layout.base - headers.imageBase) headers.imageSize blocks →
      RelocatesExactly file state dest headers layout blocks) ∧
    (Uncancelled table (stray (layout.base - headers.imageBase) blocks)
        (listed (layout.base - headers.imageBase) blocks) →
      RelocatesExactly file state dest headers layout blocks →
      Spared (layout.base - headers.imageBase) headers.imageSize blocks) := by
  have settles := load_settles copied formed
  have room := formed.room
  have fields := formed.sites
  unfold RelocatesExactly
  generalize layout.base - headers.imageBase = delta at settles fields ⊢
  constructor
  · rintro (none | ⟨zero, inside⟩)
    · have settles := settles (by simp [none])
      rw [if_pos (by simp [none]), allPatches_of_none none] at settles
      exact ⟨final, settles⟩
    · have nothing : ∀ patch ∈ allPatches delta blocks, patch.amount = 0 := by
        intro patch member
        rcases List.mem_flatMap.mp member with ⟨block, _, found⟩
        rcases List.mem_filterMap.mp found with ⟨word, _, found⟩
        rw [(amount_of_dir64 found).1, zero]
        rfl
      have settles := settles fun _ _ => Or.inl zero
      rw [if_pos inside, layout.patched_zero nothing] at settles
      refine ⟨final, ?_⟩
      rwa [layout.patched_zero fun patch member => nothing patch (mem_allPatches.mpr (.inr member))]
  · rintro uncancelled ⟨other, exact⟩
    have same := (settles fun patch member => Or.inr (uncancelled.off patch member)).unique exact
    by_cases inside : ∀ patch ∈ stray delta blocks, patch.Inside headers.imageSize.toNat
    · simp only [if_pos inside, Except.ok.injEq, Prod.mk.injEq] at same
      by_contra spared
      rw [Spared, not_or] at spared
      rcases List.exists_mem_of_ne_nil _ spared.1 with ⟨patch, member⟩
      refine patched_ne_of_apart (fun zero => spared.2 ⟨zero, inside⟩) (fun patch member => ?_)
        uncancelled.apart member same.2.1
      apply Nat.le_trans _ room
      rcases mem_allPatches.mp member with inHeader | inEntries
      · exact inside patch inHeader
      · exact (fields patch inEntries).1
    · rw [if_neg inside] at same
      cases same

end Image

/-! ## Two images -/

namespace OneBlock

def headerBytes (size : UInt8) : List UInt8 :=
  [0x4d, 0x5a] ++ List.replicate 58 0 ++ [0x40, 0, 0, 0] ++
  [0x50, 0x45, 0, 0, 0x64, 0x86, 1, 0] ++ List.replicate 12 0 ++ [0x40, 0, 0, 0] ++
  [0x0b, 2] ++ List.replicate 54 0 ++ [32, 0, 0, 0, 0, 0, 0, 0] ++
  [0x2e, 0x72, 0x65, 0x6c, 0x6f, 0x63, 0, 0, size, 0, 0, 0, 16, 0, 0, 0, size, 0, 0, 0, 0, 2, 0, 0]

def file (bytes : List UInt8) : Read Nat where
  size := 1024
  read index :=
    .ok (.ok (512, .ofBytes (if index = 0 then headerBytes (UInt8.ofNat bytes.length) else bytes)),
      index + 1)
  seek position _ := .ok (.ok (), position.toNat / 512)

def memory : Buffer where
  base := 0x200000
  bytes := List.replicate 32 0
  bounded := by decide

def table (size : UInt32) : Section where
  name := [0x2e, 0x72, 0x65, 0x6c, 0x6f, 0x63, 0, 0]
  virtSize := size
  virtAddress := 16
  rawSize := size
  rawOffset := 512

def headers (size : UInt32) : Headers where
  imageBase := 0
  imageSize := 32
  entryPoint := 0
  sizeOfHeaders := 0
  sections := [table size]

def laysOut (block : RelocationBlock) :
    Exec (Except Error Headers × Buffer × Nat) → Bool
  | .ok (.ok found, layout, _) => found == headers (UInt32.ofNat block.size) &&
      decide (layout.base = 0x200000 ∧ layout.size = 32 ∧
        layout.number 16 4 = block.page.toNat ∧ layout.number 20 4 = block.size ∧
        (List.range block.entries.length).map (fun index => layout.number (24 + 2 * index) 2) =
          block.entries.map UInt16.toNat)
  | _ => false

theorem exists_layout (block : RelocationBlock)
    {outcome : Exec (Except Error Headers × Buffer × Nat)} (checked : laysOut block outcome) :
    ∃ layout final, outcome = .ok (.ok (headers (UInt32.ofNat block.size)), layout, final) ∧
      layout.base = 0x200000 ∧ layout.size = 32 ∧ BlockAt layout 16 block := by
  rcases outcome with _ | ⟨_ | found, layout, final⟩
  · cases checked
  · cases checked
  · rw [laysOut, Bool.and_eq_true, beq_iff_eq, decide_eq_true_eq] at checked
    rcases checked with ⟨same, base, length, page, size, entries⟩
    refine ⟨layout, final, by rw [same], base, length, page, size, fun index inside => ?_⟩
    have here := congrArg (·[index]?) entries
    simpa [inside] using here

theorem delta_eq {layout : Buffer} (base : layout.base = 0x200000) (size : UInt32) :
    layout.base - (headers size).imageBase = 0x200000 := by
  rw [base, show (headers size).imageBase = 0 from rfl, UInt64.sub_zero]

theorem wellFormed {block : RelocationBlock} {layout : Buffer} (base : layout.base = 0x200000)
    (length : layout.size = 32) (blockAt : BlockAt layout 16 block) (fits : block.size ≤ 16)
    (sites : ∀ patch ∈ listed 0x200000 [block], patch.Inside 16)
    (apart : (listed 0x200000 [block]).Pairwise Patch.Apart) :
    WellFormed (headers (UInt32.ofNat block.size)) layout (table (UInt32.ofNat block.size))
      [block] := by
  have stop : (table (UInt32.ofNat block.size)).stop = 16 + block.size := by
    have size : (table (UInt32.ofNat block.size)).size = UInt32.ofNat block.size := ite_self _
    rw [Section.stop, size, UInt32.toNat_ofNat', Nat.mod_eq_of_lt (by omega)]
    rfl
  rw [← delta_eq base (UInt32.ofNat block.size)] at sites apart
  refine ⟨rfl, length ▸ Nat.le_refl 32, ?_, ?_, fun patch member => ⟨?_, Or.inl ?_⟩, apart⟩
  · rw [stop]
    change _ ≤ 32
    omega
  · rw [stop]
    exact .cons blockAt .nil
  · exact Nat.le_trans (sites patch member) (show 16 ≤ 32 by decide)
  · exact sites patch member

end OneBlock

theorem relocatesExactly_of_spared_oneEntry :
    ∃ layout, layout.size = 32 ∧ RelocatesExactly
      (OneBlock.file [0, 0, 0, 0, 10, 0, 0, 0, 0, 0xa0]) 0 OneBlock.memory (OneBlock.headers 10)
      layout [⟨0, [0xa000]⟩] := by
  rcases OneBlock.exists_layout ⟨0, [0xa000]⟩ (show OneBlock.laysOut _ ((copyImage
      (OneBlock.file [0, 0, 0, 0, 10, 0, 0, 0, 0, 0xa0])).run.run (OneBlock.memory, 0)) = true
      by decide +kernel) with ⟨layout, final, copied, base, length, blockAt⟩
  refine ⟨layout, length, (relocatesExactly_of_spared copied
    (OneBlock.wellFormed base length blockAt (by decide) ?_ (List.pairwise_singleton _ _))).1 ?_⟩
  · simp [listed, dir64, Patch.Inside]
  · rw [OneBlock.delta_eq base]
    exact Or.inl (by decide)

/-- A block without entries for the page 0xa000, which is not in the image. -/
theorem not_relocatesExactly_emptyBlock :
    ∃ layout final, (copyImage (OneBlock.file [0, 0xa0, 0, 0, 8, 0, 0, 0])).run.run
        (OneBlock.memory, 0) = .ok (.ok (OneBlock.headers 8), layout, final) ∧
      WellFormed (OneBlock.headers 8) layout (OneBlock.table 8) [⟨0xa000, []⟩] ∧
      ¬RelocatesExactly (OneBlock.file [0, 0xa0, 0, 0, 8, 0, 0, 0]) 0 OneBlock.memory
        (OneBlock.headers 8) layout [⟨0xa000, []⟩] := by
  rcases OneBlock.exists_layout ⟨0xa000, []⟩ (show OneBlock.laysOut _ ((copyImage
      (OneBlock.file [0, 0xa0, 0, 0, 8, 0, 0, 0])).run.run (OneBlock.memory, 0)) = true
      by decide +kernel) with ⟨layout, final, copied, base, length, blockAt⟩
  have formed := OneBlock.wellFormed base length blockAt (by decide) (by decide) .nil
  refine ⟨layout, final, copied, formed, ?_⟩
  rintro ⟨other, exact⟩
  have settles := load_settles copied formed
  rw [OneBlock.delta_eq base] at settles
  have outcome := (settles (by decide)).unique exact
  rw [if_neg (by decide)] at outcome
  cases outcome

end HypervisorFirmware.Pe
