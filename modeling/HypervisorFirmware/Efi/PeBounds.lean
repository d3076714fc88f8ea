import Mathlib.Logic.Relation
import HypervisorFirmware.Efi.PeSections

/-! # Bounds of the PE loader

Which accesses the loader makes is up to the image. It copies what the section table says
and changes what the relocation directory says. As long as it does not change the
directory itself, it stays inside of its buffers exactly if the two are. -/

namespace HypervisorFirmware.Efi

/-! ## The relocation directory -/

/-- A directory as it is in an image that is to be moved by `delta`. -/
structure RelocationDirectory where
  image : Buffer
  delta : UInt64
  start : UInt64
  stop : UInt64

def entryAddress (rel : UInt64) (index : Nat) : UInt64 :=
  rel + UInt64.ofNat sizeOfImageBaseRelocation + 2 * UInt64.ofNat index

namespace RelocationDirectory

section Data

variable (directory : RelocationDirectory)

def blockSize (rel : UInt64) : UInt32 := sizeOfBlock directory.image.memory rel

def count (rel : UInt64) : Nat := entryCount (directory.blockSize rel)

def entry (rel : UInt64) (index : Nat) : UInt16 :=
  directory.image.memory.readUInt16 (entryAddress rel index)

def change (rel : UInt64) (index : Nat) : Relocation :=
  relocation directory.delta (directory.entry rel index >>> 12).toNat

def field (rel : UInt64) (index : Nat) : UInt64 :=
  relocationTarget directory.image rel (directory.entry rel index)

def Known (rel : UInt64) (count : Nat) : Prop :=
  ∀ index < count, directory.change rel index ≠ .unknown

/-- The next block is behind the last entry, unless an entry is of an unknown type. -/
def Next (rel next : UInt64) : Prop :=
  rel < directory.stop ∧ directory.blockSize rel ≠ 0 ∧
    directory.Known rel (directory.count rel) ∧ next = entryAddress rel (directory.count rel)

def Block (rel : UInt64) : Prop :=
  Relation.ReflTransGen directory.Next directory.start rel ∧ rel < directory.stop

/-- The entries of a block up to the first one of an unknown type. -/
def Entry (rel : UInt64) (index : Nat) : Prop :=
  directory.Block rel ∧ directory.blockSize rel ≠ 0 ∧ index < directory.count rel ∧
    directory.Known rel index

def EntryInside (rel : UInt64) (index : Nat) : Prop :=
  directory.image.Contains (entryAddress rel index) 2 ∧
    ∀ width amount, directory.change rel index = .add width amount →
      directory.image.Contains (directory.field rel index) width

structure Inside : Prop where
  blocks : ∀ rel, directory.Block rel → directory.image.Contains rel sizeOfImageBaseRelocation
  entries : ∀ rel index, directory.Entry rel index → directory.EntryInside rel index

def Covers (address : UInt64) (width byte : Nat) : Prop :=
  directory.image.offset address ≤ byte ∧ byte < directory.image.offset address + width

def InTable (byte : Nat) : Prop :=
  (∃ rel, directory.Block rel ∧ directory.Covers rel sizeOfImageBaseRelocation byte) ∨
    ∃ rel index, directory.Entry rel index ∧ directory.Covers (entryAddress rel index) 2 byte

/-- No byte that is changed belongs to the header of a block or to an entry. -/
def Apart : Prop :=
  ∀ rel index width amount byte, directory.Entry rel index →
    directory.change rel index = .add width amount →
    directory.Covers (directory.field rel index) width byte → ¬ directory.InTable byte

/-- The directory is in `dest` as it was in the image. -/
structure Kept (dest : Buffer) : Prop where
  same : Buffer.SameObject directory.image dest
  bytes : ∀ byte, directory.InTable byte → dest.byte byte = directory.image.byte byte

end Data

variable {directory : RelocationDirectory} {dest : Buffer} {rel : UInt64}

theorem Kept.readNat (kept : directory.Kept dest) {address : UInt64} {width : Nat}
    (inside : directory.image.Contains address width)
    (table : ∀ byte, directory.Covers address width byte → directory.InTable byte) :
    dest.memory.readNat address width = directory.image.memory.readNat address width := by
  have bounded := directory.image.bounded
  rw [← Buffer.size] at bounded
  apply ByteMemory.readNat_congr
  intro index below
  have small : (UInt64.ofNat index).toNat = index := by
    unfold Buffer.Contains at inside
    rw [UInt64.toNat_ofNat']
    omega
  have behind : directory.image.offset (address + UInt64.ofNat index) =
      directory.image.offset address + index := by
    unfold Buffer.Contains at inside
    rw [Buffer.offset_add _ (by omega), small]
  rw [Buffer.memory, Buffer.memory, kept.same.offset, behind]
  exact kept.bytes _ (table _ ⟨by omega, by omega⟩)

theorem Kept.header (kept : directory.Kept dest) (block : directory.Block rel)
    (inside : directory.image.Contains rel sizeOfImageBaseRelocation) :
    dest.memory.readUInt32 rel = directory.image.memory.readUInt32 rel ∧
      sizeOfBlock dest.memory rel = directory.blockSize rel := by
  have whole : directory.image.offset rel + 8 ≤ directory.image.size :=
    inside.resolve_left (Nat.succ_ne_zero 7)
  have bounded := directory.image.bounded
  rw [← Buffer.size] at bounded
  have behind : directory.image.offset (rel + 4) = directory.image.offset rel + 4 :=
    directory.image.offset_add (show _ + 4 < _ by omega)
  constructor
  · refine congrArg UInt32.ofNat (kept.readNat (Or.inr (by omega)) fun byte covered => ?_)
    exact Or.inl ⟨rel, block, covered.1,
      Nat.lt_of_lt_of_le covered.2 (Nat.add_le_add_left (by decide) _)⟩
  · refine congrArg UInt32.ofNat (kept.readNat (Or.inr (by omega)) fun byte covered => ?_)
    rw [Covers, behind] at covered
    exact Or.inl ⟨rel, block, by omega, show byte < _ + 8 by omega⟩

theorem Kept.entry (kept : directory.Kept dest) {index : Nat} (listed : directory.Entry rel index)
    (inside : directory.image.Contains (entryAddress rel index) 2) :
    dest.memory.readUInt16 (entryAddress rel index) = directory.entry rel index :=
  congrArg UInt16.ofNat (kept.readNat inside fun _ covered => Or.inr ⟨rel, index, listed, covered⟩)

/-- What the loader does with an entry, as long as the directory is as it was. -/
theorem relocateEntry_cases (apart : directory.Apart) (kept : directory.Kept dest)
    (header : directory.image.Contains rel sizeOfImageBaseRelocation) {index : Nat}
    (listed : directory.Entry rel index) :
    (¬ directory.EntryInside rel index ∧
      relocateEntry directory.delta rel (entryAddress rel index) dest = .error .undefined) ∨
    (directory.EntryInside rel index ∧ directory.change rel index = .unknown ∧
      relocateEntry directory.delta rel (entryAddress rel index) dest = .ok none) ∨
    (directory.EntryInside rel index ∧ directory.change rel index ≠ .unknown ∧
      ∃ next, directory.Kept next ∧
        relocateEntry directory.delta rel (entryAddress rel index) dest = .ok (some next)) := by
  have contains : ∀ address width, dest.Contains address width ↔
      directory.image.Contains address width := by
    intro address width
    rw [Buffer.Contains, Buffer.Contains, kept.same.offset, kept.same.size]
  rw [relocateEntry, EntryInside]
  by_cases inside : directory.image.Contains (entryAddress rel index) 2
  · have field : relocationTarget dest rel (directory.entry rel index) =
        directory.field rel index := by
      rw [relocationTarget, kept.same.base, (kept.header listed.1 header).1]
      rfl
    rw [Buffer.load_inside ((contains _ _).mpr inside), Exec.ok_bind, kept.entry listed inside,
      ← change]
    cases changed : directory.change rel index with
    | skip => exact Or.inr (Or.inr ⟨⟨inside, by simp⟩, by simp, dest, kept, rfl⟩)
    | unknown => exact Or.inr (Or.inl ⟨⟨inside, by simp⟩, rfl, rfl⟩)
    | add width amount =>
      dsimp only
      rw [field]
      by_cases target : directory.image.Contains (directory.field rel index) width
      · have here := (contains _ _).mpr target
        rw [Buffer.load_inside here, Exec.ok_bind, Buffer.write, ByteMemory.length_littleEndian,
          if_pos here]
        refine Or.inr (Or.inr ⟨⟨inside, ?_⟩, by simp, _, ⟨?_, ?_⟩, rfl⟩)
        · rintro _ _ ⟨⟩
          exact target
        · exact kept.same.trans (Buffer.overwrite_sameObject _ _ _)
        · intro byte table
          rw [Buffer.byte_overwrite_of_outside, kept.bytes byte table]
          rw [ByteMemory.length_littleEndian, kept.same.offset]
          have missed := apart rel index width amount byte listed changed
          unfold Covers at missed
          by_contra covered
          exact missed (by omega) table
      · rw [Buffer.load_outside (mt (contains _ _).mp target), Exec.error_bind]
        exact Or.inl ⟨fun whole => target (whole.2 width amount rfl), rfl⟩
  · rw [Buffer.load_outside (mt (contains _ _).mp inside), Exec.error_bind]
    exact Or.inl ⟨fun whole => inside whole.1, rfl⟩

/-! ## The loop over the entries of a block -/

theorem entryAddress_succ (rel : UInt64) (index : Nat) :
    entryAddress rel (index + 1) = entryAddress rel index + 2 := by
  rw [entryAddress, entryAddress, UInt64.ofNat_add, UInt64.mul_add, UInt64.add_assoc,
    UInt64.add_assoc, UInt64.add_assoc]
  rfl

theorem relocateEntries_cases (apart : directory.Apart) (block : directory.Block rel)
    (nonempty : directory.blockSize rel ≠ 0)
    (header : directory.image.Contains rel sizeOfImageBaseRelocation) {left index : Nat}
    (split : index + left = directory.count rel) (known : directory.Known rel index)
    (before : ∀ earlier < index, directory.EntryInside rel earlier)
    (kept : directory.Kept dest) :
    ((∃ later, directory.Entry rel later ∧ ¬ directory.EntryInside rel later) ∧
      Loop.run (relocateEntriesBody directory.delta rel (directory.count rel)) (left + 1)
        ⟨index, entryAddress rel index, dest⟩ = .error .undefined) ∨
    ((∀ later, directory.Entry rel later → directory.EntryInside rel later) ∧
      ¬ directory.Known rel (directory.count rel) ∧ ∃ final,
      Loop.run (relocateEntriesBody directory.delta rel (directory.count rel)) (left + 1)
        ⟨index, entryAddress rel index, dest⟩ = .ok (.error 0, final)) ∨
    ((∀ later < directory.count rel, directory.EntryInside rel later) ∧
      directory.Known rel (directory.count rel) ∧ ∃ final, directory.Kept final ∧
      Loop.run (relocateEntriesBody directory.delta rel (directory.count rel)) (left + 1)
        ⟨index, entryAddress rel index, dest⟩ =
          .ok (.ok (entryAddress rel (directory.count rel)), final)) := by
  induction left generalizing index dest with
  | zero =>
    rw [Nat.add_zero] at split
    subst split
    refine Or.inr (Or.inr ⟨before, known, dest, kept, ?_⟩)
    rw [Loop.run, relocateEntriesBody, if_pos (Nat.le_refl _)]
    rfl
  | succ left induction =>
    have listed : directory.Entry rel index := ⟨block, nonempty, by omega, known⟩
    rw [Loop.run, relocateEntriesBody, if_neg (show ¬ directory.count rel ≤ index by omega)]
    rcases relocateEntry_cases apart kept header listed with
      ⟨outside, failed⟩ | ⟨inside, unknown, ended⟩ | ⟨inside, fine, next, keptNext, went⟩
    · dsimp only
      rw [failed]
      exact Or.inl ⟨⟨index, listed, outside⟩, rfl⟩
    · dsimp only
      rw [ended]
      refine Or.inr (Or.inl ⟨?_, fun all => all index listed.2.2.1 unknown, dest, rfl⟩)
      intro later listedLater
      rcases Nat.lt_trichotomy later index with earlier | rfl | behind
      · exact before later earlier
      · exact inside
      · exact absurd unknown (listedLater.2.2.2 index behind)
    · dsimp only
      rw [went, ← entryAddress_succ]
      exact induction (by omega) (Nat.forall_lt_succ_right.mpr ⟨known, fine⟩)
        (Nat.forall_lt_succ_right.mpr ⟨before, inside⟩) keptNext

/-! ## The loop over the blocks -/

variable (directory) in
def BlockInside (rel : UInt64) : Prop :=
  directory.Block rel → directory.image.Contains rel sizeOfImageBaseRelocation ∧
    ∀ index, directory.Entry rel index → directory.EntryInside rel index

theorem inside_iff : directory.Inside ↔
    ∀ rel, Relation.ReflTransGen directory.Next directory.start rel →
      directory.BlockInside rel := by
  constructor
  · intro inside rel _ block
    exact ⟨inside.blocks rel block, inside.entries rel⟩
  · intro every
    exact ⟨fun rel block => (every rel block.1 block).1,
      fun rel index listed => (every rel listed.1.1 listed.1).2 index listed⟩

theorem relocateImageBody_cases (apart : directory.Apart)
    (reached : Relation.ReflTransGen directory.Next directory.start rel)
    (kept : directory.Kept dest) :
    (¬ directory.BlockInside rel ∧
      relocateImageBody directory.delta directory.stop ⟨rel, dest⟩ = .error .undefined) ∨
    (directory.BlockInside rel ∧ (∀ next, ¬ directory.Next rel next) ∧
      ∃ result,
        relocateImageBody directory.delta directory.stop ⟨rel, dest⟩ = .ok (.inr result)) ∨
    (directory.Next rel (entryAddress rel (directory.count rel)) ∧
      directory.image.Contains rel sizeOfImageBaseRelocation ∧
      (∀ index < directory.count rel, directory.EntryInside rel index) ∧
      ∃ final, directory.Kept final ∧
        relocateImageBody directory.delta directory.stop ⟨rel, dest⟩ =
          .ok (.inl ⟨entryAddress rel (directory.count rel), final⟩)) := by
  rw [relocateImageBody]
  by_cases finished : rel ≥ directory.stop
  · rw [if_pos finished]
    exact Or.inr (Or.inl ⟨fun block => absurd finished (UInt64.not_le.mpr block.2),
      fun next follows => absurd finished (UInt64.not_le.mpr follows.1), _, rfl⟩)
  · have block : directory.Block rel := ⟨reached, UInt64.not_le.mp finished⟩
    rw [if_neg finished]
    by_cases header : directory.image.Contains rel sizeOfImageBaseRelocation
    · have here : dest.Contains rel sizeOfImageBaseRelocation := by
        rwa [Buffer.Contains, kept.same.offset, kept.same.size]
      rw [Buffer.load_inside here, Exec.ok_bind, (kept.header block header).2]
      by_cases empty : directory.blockSize rel = 0
      · rw [if_pos empty]
        exact Or.inr (Or.inl ⟨fun _ => ⟨header, fun _ listed => absurd empty listed.2.1⟩,
          fun next follows => follows.2.1 empty, _, rfl⟩)
      · have first : entryAddress rel 0 = rel + UInt64.ofNat sizeOfImageBaseRelocation :=
          UInt64.add_zero _
        rw [if_neg empty, ← first]
        dsimp only
        rw [← count]
        have none {Fact : Nat → Prop} : ∀ earlier < 0, Fact earlier :=
          fun _ early => absurd early (Nat.not_lt_zero _)
        rcases relocateEntries_cases apart block empty header (Nat.zero_add _) none none kept with
          ⟨⟨later, listed, outside⟩, failed⟩ | ⟨inside, unknown, final, ended⟩ |
            ⟨inside, known, final, keptFinal, went⟩
        · rw [failed]
          exact Or.inl ⟨fun whole => outside ((whole block).2 later listed), rfl⟩
        · rw [ended]
          exact Or.inr (Or.inl ⟨fun _ => ⟨header, inside⟩,
            fun next follows => unknown follows.2.2.1, _, rfl⟩)
        · rw [went]
          exact Or.inr (Or.inr ⟨⟨block.2, empty, known, rfl⟩, header, inside, final, keptFinal,
            rfl⟩)
    · rw [Buffer.load_outside (by rwa [Buffer.Contains, kept.same.offset, kept.same.size]),
        Exec.error_bind]
      exact Or.inl ⟨fun whole => header (whole block).1, rfl⟩

/-- Inside of the image, blocks do not wrap. -/
theorem offset_entryAddress (small : directory.image.size < 2 ^ 64)
    (header : directory.image.Contains rel sizeOfImageBaseRelocation) {count : Nat}
    (inside : ∀ index < count, directory.EntryInside rel index) :
    directory.image.offset (entryAddress rel count) =
        directory.image.offset rel + 8 + 2 * count ∧
      directory.image.offset (entryAddress rel count) ≤ directory.image.size := by
  induction count with
  | zero =>
    have whole : directory.image.offset rel + 8 ≤ directory.image.size :=
      header.resolve_left (Nat.succ_ne_zero 7)
    have first : directory.image.offset (entryAddress rel 0) = directory.image.offset rel + 8 := by
      rw [entryAddress, show 2 * UInt64.ofNat 0 = 0 from rfl, UInt64.add_zero]
      exact directory.image.offset_add (show _ + 8 < _ by omega)
    omega
  | succ count induction =>
    rcases induction fun index below => inside index (Nat.lt_succ_of_lt below) with ⟨place, _⟩
    have here := (inside count (Nat.lt_succ_self count)).1
    unfold Buffer.Contains at here
    have next : directory.image.offset (entryAddress rel (count + 1)) =
        directory.image.offset (entryAddress rel count) + 2 := by
      rw [entryAddress_succ]
      exact directory.image.offset_add (show _ + 2 < _ by omega)
    omega

/-- Where the loop is between two blocks: it has come to one of the directory, which is
still as it was. -/
def AtBlock (directory : RelocationDirectory) (state : BlockState) : Prop :=
  Relation.ReflTransGen directory.Next directory.start state.relBase ∧ directory.Kept state.dest

theorem AtBlock.next {state next : BlockState} (arrived : directory.AtBlock state)
    (apart : directory.Apart) (small : directory.image.size < 2 ^ 64)
    (stepped : relocateImageBody directory.delta directory.stop state = .ok (.inl next)) :
    directory.AtBlock next ∧
      directory.image.size - directory.image.offset next.relBase <
        directory.image.size - directory.image.offset state.relBase := by
  rcases state with ⟨rel, dest⟩
  rcases relocateImageBody_cases apart arrived.1 arrived.2 with
    ⟨_, body⟩ | ⟨_, _, _, body⟩ | ⟨follows, header, inside, final, kept, body⟩
  all_goals rw [body] at stepped
  all_goals cases stepped
  have place := offset_entryAddress small header inside
  refine ⟨⟨arrived.1.tail follows, kept⟩, ?_⟩
  dsimp only at place ⊢
  omega

end RelocationDirectory

/-! ## The whole loader -/

def relocations (header : ImageOptionalHeader64) (image : Buffer) : RelocationDirectory where
  image := image
  delta := image.base - header.imageBase
  start := image.base + header.basereloc.virtualAddress.toUInt64
  stop := image.base + header.basereloc.virtualAddress.toUInt64 + header.basereloc.size.toUInt64

namespace OneSection

/-- The section is a relocation block with one entry, and the field that is relocated. -/
def relocated : Buffer where
  base := 0x10000
  bytes := bytes 400 (368 + 10 * 2 ^ 32) 16
    [0x70, 1, 0, 0, 10, 0, 0, 0, 0x0c, 0x30, 0, 0, 0x70, 1, 0x20, 0]
  bounded := by decide +kernel

def moved : Buffer where
  base := 0x300000
  bytes := List.replicate 400 0xff
  bounded := by
    rw [List.length_replicate]
    decide

def directory : RelocationDirectory :=
  relocations (ntHeader relocated).optionalHeader (loadedImage relocated moved)

end OneSection

def OneSection.cut : Buffer where
  base := 0x10000
  bytes := OneSection.source.bytes.take 328
  bounded := by decide +kernel

end HypervisorFirmware.Efi
