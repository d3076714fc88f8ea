import Mathlib.Tactic.IntervalCases
import HypervisorFirmware.Efi.PeLoader
import HypervisorFirmware.Foundation.Budget
import HypervisorFirmware.Foundation.Patches

/-! # What a relocation table does to an image

A relocation directory is a row of blocks, and each of their entries asks for a number
to be added to a field of the image. The loader reads the directory from the memory that
it patches. As long as the fields are not in the directory, it applies exactly the
entries of the table. -/

namespace HypervisorFirmware.Efi

/-! ## Tables -/

structure RelocationBlock where
  page : UInt32
  entries : List UInt16

def RelocationBlock.size (block : RelocationBlock) : Nat := 8 + 2 * block.entries.length

structure BlockAt (dest : Buffer) (position : Nat) (block : RelocationBlock) : Prop where
  page : dest.number position 4 = block.page.toNat
  size : dest.number (position + 4) 4 = block.size
  entries : ∀ index, (inside : index < block.entries.length) →
    dest.number (position + 8 + 2 * index) 2 = block.entries[index].toNat

inductive TableAt (dest : Buffer) : (start stop : Nat) → List RelocationBlock → Prop
  | nil {start : Nat} : TableAt dest start start []
  | cons {start stop : Nat} {block : RelocationBlock} {rest : List RelocationBlock} :
      BlockAt dest start block → TableAt dest (start + block.size) stop rest →
      TableAt dest start stop (block :: rest)

def KnownType (entry : UInt16) : Prop := entry.toNat / 0x1000 ∈ [0, 1, 2, 3, 10]

instance (entry : UInt16) : Decidable (KnownType entry) :=
  inferInstanceAs (Decidable (_ ∈ _))

def EntriesKnown (entries : List UInt16) : Prop := ∀ entry ∈ entries, KnownType entry

instance (entries : List UInt16) : Decidable (EntriesKnown entries) :=
  List.decidableBAll KnownType entries

theorem entriesKnown_nil : EntriesKnown [] := List.forall_mem_nil KnownType

theorem entriesKnown_cons {entry : UInt16} {rest : List UInt16} :
    EntriesKnown (entry :: rest) ↔ KnownType entry ∧ EntriesKnown rest := List.forall_mem_cons

def patchOf (delta : UInt64) (page : UInt32) (entry : UInt16) : Option Patch :=
  let position := page.toNat + entry.toNat % 0x1000
  match entry.toNat / 0x1000 with
  | 1 => some ⟨position, 2, delta.toNat % 2 ^ 32 / 2 ^ 16⟩
  | 2 => some ⟨position, 2, delta.toNat % 2 ^ 16⟩
  | 3 => some ⟨position, 4, delta.toNat % 2 ^ 32⟩
  | 10 => some ⟨position, 8, delta.toNat⟩
  | _ => none

def RelocationBlock.patches (delta : UInt64) (block : RelocationBlock) : List Patch :=
  block.entries.filterMap (patchOf delta block.page)

def tablePatches (delta : UInt64) (blocks : List RelocationBlock) : List Patch :=
  blocks.flatMap (RelocationBlock.patches delta)

/-! ## One entry -/

variable {page : UInt32} {before : Buffer}

theorem patchOf_position {delta : UInt64} {entry : UInt16} {patch : Patch}
    (found : patchOf delta page entry = some patch) :
    patch.position = page.toNat + entry.toNat % 0x1000 := by
  unfold patchOf at found
  split at found <;> cases found <;> rfl

theorem relocation_eq (delta : UInt64) (page : UInt32) (entry : UInt16) :
    relocation delta (entry >>> 12).toNat =
      if KnownType entry then
        match patchOf delta page entry with
        | some patch => .add patch.width patch.amount
        | none => .skip
      else .unknown := by
  have type : (entry >>> 12).toNat = entry.toNat / 0x1000 := by
    rw [UInt16.toNat_shiftRight, Nat.shiftRight_eq_div_pow]
    rfl
  have high : (delta.toUInt32 >>> 16).toUInt16.toNat = delta.toNat % 2 ^ 32 / 2 ^ 16 := by
    rw [UInt32.toNat_toUInt16, UInt32.toNat_shiftRight, Nat.shiftRight_eq_div_pow,
      UInt64.toNat_toUInt32]
    change delta.toNat % 2 ^ 32 / 2 ^ 16 % 2 ^ 16 = _
    omega
  have bound : entry.toNat / 0x1000 < 16 := by
    have small := entry.toNat_lt
    omega
  rw [type]
  interval_cases kind : entry.toNat / 0x1000 <;> simp [relocation, KnownType, patchOf, kind, high]

theorem relocationTarget_eq {dest : Buffer} {rel : UInt64} (entry : UInt16)
    (read : dest.memory.readUInt32 rel = page) :
    relocationTarget dest rel entry =
      dest.base + UInt64.ofNat (page.toNat + entry.toNat % 0x1000) := by
  have low : (entry &&& 0xfff).toNat = entry.toNat % 0x1000 := by
    rw [UInt16.toNat_and]
    exact Nat.and_two_pow_sub_one_eq_mod entry.toNat 12
  rw [relocationTarget, read]
  congr 1
  apply UInt64.toNat_inj.mp
  rw [UInt64.toNat_add, UInt16.toNat_toUInt64, UInt32.toNat_toUInt64, UInt64.toNat_ofNat', low,
    Nat.add_comm]

theorem readUInt32_number (dest : Buffer) {position : Nat} {value : UInt32}
    (inside : position + 4 ≤ 2 ^ 64) (number : dest.number position 4 = value.toNat) :
    dest.memory.readUInt32 (dest.base + UInt64.ofNat position) = value := by
  rw [ByteMemory.readUInt32, dest.readNat_memory inside, number, UInt32.ofNat_toNat]

theorem readUInt16_number (dest : Buffer) {position : Nat} {value : UInt16}
    (inside : position + 2 ≤ 2 ^ 64) (number : dest.number position 2 = value.toNat) :
    dest.memory.readUInt16 (dest.base + UInt64.ofNat position) = value := by
  rw [ByteMemory.readUInt16, dest.readNat_memory inside, number, UInt16.ofNat_toNat]

theorem contains_position (dest : Buffer) {position width : Nat}
    (inside : position + width ≤ dest.size) (bounded : position < 2 ^ 64) :
    dest.Contains (dest.base + UInt64.ofNat position) width := by
  rw [Buffer.contains_base_add, UInt64.toNat_ofNat', Nat.mod_eq_of_lt bounded]
  exact Or.inr inside

theorem relocateEntry_eq {delta : UInt64} {dest : Buffer} {position place : Nat}
    {entry : UInt16} (small : dest.size < 2 ^ 64) (header : position + 4 ≤ dest.size)
    (inside : place + 2 ≤ dest.size) (pageRead : dest.number position 4 = page.toNat)
    (entryRead : dest.number place 2 = entry.toNat)
    (fits : ∀ patch, patchOf delta page entry = some patch → patch.Inside dest.size) :
    relocateEntry delta (dest.base + UInt64.ofNat position) (dest.base + UInt64.ofNat place) dest =
      .ok (if KnownType entry then some (dest.patched (patchOf delta page entry).toList)
        else none) := by
  have target := relocationTarget_eq entry (readUInt32_number dest (by omega) pageRead)
  rw [relocateEntry, Buffer.load_inside (contains_position dest inside (by omega)), Exec.ok_bind,
    readUInt16_number dest (by omega) entryRead, relocation_eq delta page entry]
  by_cases known : KnownType entry
  · rw [if_pos known, if_pos known]
    cases found : patchOf delta page entry with
    | none => rfl
    | some patch =>
      have here := fits patch found
      unfold Patch.Inside at here
      have contains := contains_position dest here (by omega)
      dsimp only
      rw [target, ← patchOf_position found, Buffer.load_inside contains, Exec.ok_bind,
        dest.readNat_memory (by omega), Buffer.write, ByteMemory.length_littleEndian,
        if_pos contains, Buffer.offset_base_add, UInt64.toNat_ofNat',
        Nat.mod_eq_of_lt (by omega)]
      rfl
  · rw [if_neg known, if_neg known]
    rfl

/-! ## The directory -/

structure DirectoryKept (start stop : Nat) (before after : Buffer) : Prop where
  same : Buffer.SameObject before after
  bytes : ∀ index, start ≤ index → index < stop → after.byte index = before.byte index

def FieldFits (start stop size : Nat) (patch : Patch) : Prop :=
  patch.Inside size ∧ (patch.position + patch.width ≤ start ∨ stop ≤ patch.position)

theorem DirectoryKept.number {start stop : Nat} {after : Buffer}
    (kept : DirectoryKept start stop before after) {position width : Nat}
    (behind : start ≤ position) (inside : position + width ≤ stop) :
    after.number position width = before.number position width := by
  apply Buffer.number_congr
  intro index lower upper
  exact kept.bytes index (by omega) (by omega)

theorem DirectoryKept.patched {start stop : Nat} {after : Buffer}
    (kept : DirectoryKept start stop before after) {patches : List Patch}
    (fits : ∀ patch ∈ patches, FieldFits start stop before.size patch) :
    DirectoryKept start stop before (after.patched patches) where
  same := kept.same.trans (after.patched_sameObject patches)
  bytes index behind inside := by
    rw [Buffer.byte_patched_of_not_covers, kept.bytes index behind inside]
    intro patch member covered
    have apart := (fits patch member).2
    unfold Patch.Covers at covered
    omega

theorem BlockAt.kept {start stop position : Nat} {after : Buffer} {block : RelocationBlock}
    (blockAt : BlockAt before position block) (kept : DirectoryKept start stop before after)
    (behind : start ≤ position) (inside : position + block.size ≤ stop) :
    BlockAt after position block := by
  unfold RelocationBlock.size at inside
  constructor
  · rw [kept.number behind (by omega), blockAt.page]
  · rw [kept.number (by omega) (by omega), blockAt.size]
  · intro index bound
    rw [kept.number (by omega) (by omega), blockAt.entries index bound]

/-! ## The loops -/

section Loops

variable {delta : UInt64} {start stop : Nat} {dest : Buffer}

variable {block : RelocationBlock} {current : Buffer}

section

variable (small : dest.size < 2 ^ 64) (fill : stop ≤ dest.size) {position : Nat}
  (blockAt : BlockAt dest position block) (behind : start ≤ position)
  (inside : position + block.size ≤ stop) {done rest : List UInt16}

include small fill blockAt behind inside

theorem relocateEntriesBody_entry {entry : UInt16} (split : block.entries = done ++ entry :: rest)
    (fits : ∀ patch, patchOf delta block.page entry = some patch →
      FieldFits start stop dest.size patch) (kept : DirectoryKept start stop dest current) :
    relocateEntriesBody delta (dest.base + UInt64.ofNat position) block.entries.length
        ⟨done.length, dest.base + UInt64.ofNat (position + 8 + 2 * done.length), current⟩ =
      .ok (if KnownType entry then
        .inl ⟨(done ++ [entry]).length,
          dest.base + UInt64.ofNat (position + 8 + 2 * (done ++ [entry]).length),
          current.patched (patchOf delta block.page entry).toList⟩
      else .inr (.error 0, current)) := by
  have length : block.entries.length = done.length + (rest.length + 1) := by
    rw [split, List.length_append, List.length_cons]
  have read : block.entries[done.length] = entry := by
    simp [split]
  unfold RelocationBlock.size at inside
  have sizes := kept.same.size
  have here := blockAt.kept kept behind inside
  have once : relocateEntry delta (dest.base + UInt64.ofNat position)
      (dest.base + UInt64.ofNat (position + 8 + 2 * done.length)) current =
        .ok (if KnownType entry then
          some (current.patched (patchOf delta block.page entry).toList) else none) := by
    rw [← kept.same.base]
    apply relocateEntry_eq (by omega) (by omega) (by omega) here.page
    · rw [here.entries done.length (by omega), read]
    · intro patch found
      rw [sizes]
      exact (fits patch found).1
  have next : dest.base + UInt64.ofNat (position + 8 + 2 * done.length) + 2 =
      dest.base + UInt64.ofNat (position + 8 + 2 * (done ++ [entry]).length) := by
    rw [List.length_append, List.length_singleton, Nat.mul_add, ← Nat.add_assoc,
      UInt64.ofNat_add _ (2 * 1), UInt64.add_assoc]
    rfl
  have unfinished : ¬ block.entries.length ≤ done.length := by omega
  rw [relocateEntriesBody, if_neg unfinished, once, ← next]
  by_cases known : KnownType entry
  · simp [known]
  · simp [known]

theorem relocateEntries_run (split : block.entries = done ++ rest)
    (fits : ∀ patch ∈ rest.filterMap (patchOf delta block.page),
      FieldFits start stop dest.size patch) (kept : DirectoryKept start stop dest current)
    {fuel : Nat} (enough : rest.length < fuel) :
    ∃ after, Loop.run
        (relocateEntriesBody delta (dest.base + UInt64.ofNat position) block.entries.length) fuel
        ⟨done.length, dest.base + UInt64.ofNat (position + 8 + 2 * done.length), current⟩ =
          .ok (if EntriesKnown rest then
            .ok (dest.base + UInt64.ofNat (position + block.size)) else .error 0, after) ∧
      (EntriesKnown rest →
        after = current.patched (rest.filterMap (patchOf delta block.page))) := by
  induction rest generalizing done current fuel with
  | nil =>
    obtain ⟨fuel, rfl⟩ := Nat.exists_eq_add_of_lt enough
    rw [List.append_nil] at split
    refine ⟨current, ?_, fun _ => rfl⟩
    rw [Loop.run, relocateEntriesBody, if_pos (by rw [split])]
    simp [RelocationBlock.size, split, Nat.add_assoc, entriesKnown_nil]
  | cons entry rest induction =>
    obtain ⟨fuel, rfl⟩ := Nat.exists_eq_add_of_lt enough
    have entryFits : ∀ patch, patchOf delta block.page entry = some patch →
        FieldFits start stop dest.size patch := by
      intro patch found
      exact fits patch (List.mem_filterMap.mpr ⟨entry, List.mem_cons_self, found⟩)
    rw [Loop.run, relocateEntriesBody_entry small fill blockAt behind inside split entryFits kept]
    by_cases known : KnownType entry
    · have keptNext : DirectoryKept start stop dest
          (current.patched (patchOf delta block.page entry).toList) := by
        apply kept.patched
        intro patch member
        exact entryFits patch (Option.mem_toList.mp member)
      have splitNext : block.entries = (done ++ [entry]) ++ rest := by
        rw [split, List.append_assoc]
        rfl
      have fitsNext : ∀ patch ∈ rest.filterMap (patchOf delta block.page),
          FieldFits start stop dest.size patch := by
        intro patch member
        rcases List.mem_filterMap.mp member with ⟨other, later, found⟩
        exact fits patch (List.mem_filterMap.mpr ⟨other, .tail entry later, found⟩)
      have enoughNext : rest.length < (entry :: rest).length + fuel := by
        rw [List.length_cons]
        omega
      rcases induction splitNext fitsNext keptNext enoughNext with ⟨after, returned, patched⟩
      refine ⟨after, ?_, ?_⟩
      · simpa [known, entriesKnown_cons] using returned
      · intro all
        rw [patched (entriesKnown_cons.mp all).2, ← Buffer.patched_append]
        cases found : patchOf delta block.page entry <;> simp [found]
    · have unknown : ¬ EntriesKnown (entry :: rest) := fun all =>
        known (entriesKnown_cons.mp all).1
      refine ⟨current, ?_, fun all => absurd all unknown⟩
      simp [known, unknown]

end

theorem TableAt.le {position : Nat} {blocks : List RelocationBlock}
    (table : TableAt dest position stop blocks) : position ≤ stop := by
  induction table with
  | nil => exact Nat.le_refl _
  | cons _ _ induction => omega

theorem BlockAt.count {position : Nat}
    (blockAt : BlockAt dest position block) (inside : position + 8 ≤ dest.size)
    (small : dest.size < 2 ^ 64) :
    sizeOfBlock dest.memory (dest.base + UInt64.ofNat position) ≠ 0 ∧
      entryCount (sizeOfBlock dest.memory (dest.base + UInt64.ofNat position)) =
        block.entries.length := by
  have bound := dest.number_lt (position + 4) 4
  rw [blockAt.size] at bound
  have value : (UInt32.ofNat block.size).toNat = block.size := by
    rw [UInt32.toNat_ofNat']
    exact Nat.mod_eq_of_lt bound
  have field : dest.base + UInt64.ofNat position + 4 = dest.base + UInt64.ofNat (position + 4) := by
    rw [UInt64.ofNat_add, UInt64.add_assoc]
    rfl
  have read : sizeOfBlock dest.memory (dest.base + UInt64.ofNat position) =
      UInt32.ofNat block.size := by
    rw [sizeOfBlock, field]
    exact readUInt32_number dest (by omega) (blockAt.size.trans value.symm)
  rw [read]
  constructor
  · intro zero
    have number := congrArg UInt32.toNat zero
    rw [value] at number
    unfold RelocationBlock.size at number
    change _ = 0 at number
    omega
  · have wide : (UInt32.ofNat block.size).toUInt64.toNat = 8 + 2 * block.entries.length := by
      rw [UInt32.toNat_toUInt64, value, RelocationBlock.size]
    have header : (UInt64.ofNat sizeOfImageBaseRelocation).toNat = 8 := rfl
    rw [entryCount, UInt64.toNat_div, UInt64.toNat_sub_of_le, wide, header]
    · change (8 + 2 * block.entries.length - 8) / 2 = block.entries.length
      omega
    · rw [UInt64.le_iff_toNat_le, wide, header]
      omega

def AllKnown (blocks : List RelocationBlock) : Prop :=
  ∀ block ∈ blocks, ∀ entry ∈ block.entries, KnownType entry

instance (blocks : List RelocationBlock) : Decidable (AllKnown blocks) :=
  inferInstanceAs (Decidable (∀ block ∈ blocks, ∀ entry ∈ block.entries, _))

theorem allKnown_cons {rest : List RelocationBlock} :
    AllKnown (block :: rest) ↔ EntriesKnown block.entries ∧ AllKnown rest := List.forall_mem_cons

variable (image : dest.base.toNat + dest.size < 2 ^ 64) (fill : stop ≤ dest.size) {position : Nat}

include image fill

theorem relocateImageBody_block (blockAt : BlockAt dest position block) (behind : start ≤ position)
    (inside : position + block.size ≤ stop)
    (fits : ∀ patch ∈ block.patches delta, FieldFits start stop dest.size patch)
    (kept : DirectoryKept start stop dest current) :
    ∃ after, relocateImageBody delta (dest.base + UInt64.ofNat stop)
        ⟨dest.base + UInt64.ofNat position, current⟩ =
          .ok (if EntriesKnown block.entries then
            .inl ⟨dest.base + UInt64.ofNat (position + block.size), after⟩
          else .inr (.error 0, after)) ∧
      (EntriesKnown block.entries → after = current.patched (block.patches delta)) := by
  have least : 8 ≤ block.size := Nat.le_add_right 8 _
  have base := kept.same.base
  have sizes := kept.same.size
  have unfinished : ¬ dest.base + UInt64.ofNat position ≥ dest.base + UInt64.ofNat stop := by
    rw [ge_iff_le, UInt64.le_iff_toNat_le, UInt64.toNat_add, UInt64.toNat_add,
      UInt64.toNat_ofNat', UInt64.toNat_ofNat']
    omega
  have here := (blockAt.kept kept behind inside).count (by omega) (by omega)
  rw [base] at here
  have loaded : current.load (dest.base + UInt64.ofNat position) sizeOfImageBaseRelocation
      sizeOfBlock = .ok (sizeOfBlock current.memory (dest.base + UInt64.ofNat position)) := by
    apply Buffer.load_inside
    have header : position + sizeOfImageBaseRelocation ≤ current.size :=
      Nat.le_trans (Nat.add_le_add_left least position) (by omega)
    rw [← base]
    exact contains_position current header (by omega)
  have behindHeader : dest.base + UInt64.ofNat position +
      UInt64.ofNat sizeOfImageBaseRelocation = dest.base + UInt64.ofNat (position + 8) := by
    rw [UInt64.ofNat_add, UInt64.add_assoc]
  rcases relocateEntries_run (by omega) fill blockAt behind inside (List.nil_append _).symm
    fits kept (Nat.lt_succ_self block.entries.length) with ⟨after, entries, patched⟩
  refine ⟨after, ?_, patched⟩
  simp only [List.length_nil, Nat.mul_zero, Nat.add_zero] at entries
  rw [relocateImageBody, if_neg unfinished, loaded, Exec.ok_bind, if_neg here.1]
  dsimp only
  rw [here.2, behindHeader, entries, Exec.ok_bind]
  by_cases known : EntriesKnown block.entries
  · simp only [if_pos known]
    rfl
  · simp only [if_neg known]
    rfl

theorem relocateBlocks_run {blocks : List RelocationBlock}
    (table : TableAt dest position stop blocks) (behind : start ≤ position)
    (fits : ∀ patch ∈ tablePatches delta blocks, FieldFits start stop dest.size patch)
    (kept : DirectoryKept start stop dest current) {fuel : Nat} (enough : blocks.length < fuel) :
    ∃ after, Loop.run (relocateImageBody delta (dest.base + UInt64.ofNat stop)) fuel
        ⟨dest.base + UInt64.ofNat position, current⟩ =
          .ok (if AllKnown blocks then .ok () else .error 0, after) ∧
      (AllKnown blocks → after = current.patched (tablePatches delta blocks)) := by
  induction table generalizing current fuel with
  | @nil stop =>
    obtain ⟨fuel, rfl⟩ := Nat.exists_eq_add_of_lt enough
    refine ⟨current, ?_, fun _ => rfl⟩
    rw [Loop.run, relocateImageBody, if_pos (UInt64.le_refl _)]
    rfl
  | @cons position stop block rest blockAt table induction =>
    obtain ⟨fuel, rfl⟩ := Nat.exists_eq_add_of_lt enough
    have blockFits : ∀ patch ∈ block.patches delta, FieldFits start stop dest.size patch := by
      intro patch member
      exact fits patch (List.mem_flatMap.mpr ⟨block, List.mem_cons_self, member⟩)
    have restFits : ∀ patch ∈ tablePatches delta rest, FieldFits start stop dest.size patch := by
      intro patch member
      rcases List.mem_flatMap.mp member with ⟨other, later, found⟩
      exact fits patch (List.mem_flatMap.mpr ⟨other, .tail block later, found⟩)
    rcases relocateImageBody_block image fill blockAt behind table.le blockFits kept with
      ⟨between, once, patched⟩
    rw [Loop.run, once]
    by_cases known : EntriesKnown block.entries
    · have keptNext := kept.patched blockFits
      rw [← patched known] at keptNext
      rcases induction fill (by omega) restFits keptNext
        (show rest.length < (block :: rest).length + fuel by rw [List.length_cons]; omega) with
        ⟨after, returned, patchedRest⟩
      refine ⟨after, ?_, ?_⟩
      · simp only [if_pos known, allKnown_cons, and_iff_right known]
        exact returned
      · intro all
        rw [patchedRest (allKnown_cons.mp all).2, patched known, ← Buffer.patched_append]
        rfl
    · have unknown : ¬ AllKnown (block :: rest) := fun all => known (allKnown_cons.mp all).1
      refine ⟨between, ?_, fun all => absurd all unknown⟩
      simp only [if_neg known, if_neg unknown]

end Loops

/-! ## The whole table -/

/-- An image with a relocation directory, which is inside of the image, and whose fields
are inside of the image and outside of the directory. No object reaches up to the last
address. -/
structure Relocatable (dest : Buffer) (delta : UInt64) (start stop : Nat)
    (blocks : List RelocationBlock) : Prop where
  bounded : dest.base.toNat + dest.size < 2 ^ 64
  table : TableAt dest start stop blocks
  inside : stop ≤ dest.size
  fits : ∀ patch ∈ tablePatches delta blocks, FieldFits start stop dest.size patch

structure ExactlyPatched (patches : List Patch) (before after : Buffer) : Prop where
  same : Buffer.SameObject before after
  fields : ∀ patch ∈ patches, after.number patch.position patch.width =
    (before.number patch.position patch.width + patch.amount) % 256 ^ patch.width
  others : ∀ index, (∀ patch ∈ patches, ¬ patch.Covers index) →
    after.byte index = before.byte index

abbrev relocateDirectory (dest : Buffer) (start stop : Nat) (imageBase : UInt64) (fuel : Nat) :
    Exec (Except UInt64 Unit × Buffer) :=
  relocateImage fuel dest (dest.base + UInt64.ofNat start) (UInt64.ofNat (stop - start)) imageBase

section Table

variable {dest : Buffer} {imageBase : UInt64} {start stop : Nat} {blocks : List RelocationBlock}

theorem patchOf_zero {page : UInt32} {entry : UInt16} {patch : Patch}
    (found : patchOf 0 page entry = some patch) : patch.amount = 0 := by
  unfold patchOf at found
  split at found <;> cases found <;> rfl

theorem tablePatches_zero {patch : Patch} (member : patch ∈ tablePatches 0 blocks) :
    patch.amount = 0 := by
  rcases List.mem_flatMap.mp member with ⟨block, _, inBlock⟩
  rcases List.mem_filterMap.mp inBlock with ⟨entry, _, found⟩
  exact patchOf_zero found

theorem Relocatable.run (relocatable : Relocatable dest (dest.base - imageBase) start stop blocks)
    (moved : dest.base - imageBase ≠ 0) :
    ∃ after, SettlesTo (relocateDirectory dest start stop imageBase)
        (.ok (if AllKnown blocks then .ok () else .error 0, after)) ∧
      (AllKnown blocks → after = dest.patched (tablePatches (dest.base - imageBase) blocks)) := by
  have ordered := relocatable.table.le
  have stopAddress : dest.base + UInt64.ofNat start + UInt64.ofNat (stop - start) =
      dest.base + UInt64.ofNat stop := by
    rw [UInt64.add_assoc, ← UInt64.ofNat_add, Nat.add_sub_cancel' ordered]
  have kept : DirectoryKept start stop dest dest := ⟨.refl dest, fun _ _ _ => rfl⟩
  rcases relocateBlocks_run relocatable.bounded relocatable.inside relocatable.table
    (Nat.le_refl start) relocatable.fits kept (Nat.lt_succ_self blocks.length) with
    ⟨after, returned, patched⟩
  refine ⟨after, ⟨blocks.length + 1, fun fuel enough => ?_⟩, patched⟩
  rw [relocateDirectory, relocateImage, if_neg moved, stopAddress]
  exact Loop.run_mono enough returned

theorem Relocatable.settles
    (relocatable : Relocatable dest (dest.base - imageBase) start stop blocks)
    (known : AllKnown blocks) :
    SettlesTo (relocateDirectory dest start stop imageBase)
      (.ok (.ok (), dest.patched (tablePatches (dest.base - imageBase) blocks))) := by
  by_cases moved : dest.base - imageBase = 0
  · refine ⟨0, fun fuel _ => ?_⟩
    rw [relocateDirectory, relocateImage, if_pos moved, moved,
      Buffer.patched_zero dest fun patch member => tablePatches_zero member]
  · rcases relocatable.run moved with ⟨after, settles, patched⟩
    rw [if_pos known, patched known] at settles
    exact settles

theorem relocateImage_exact
    (relocatable : Relocatable dest (dest.base - imageBase) start stop blocks) :
    (AllKnown blocks →
      (tablePatches (dest.base - imageBase) blocks).Pairwise Patch.Apart →
      ∃ after,
        SettlesTo (relocateDirectory dest start stop imageBase) (.ok (.ok (), after)) ∧
        ExactlyPatched (tablePatches (dest.base - imageBase) blocks) dest after ∧
        -- Another order of blocks and entries has the same result.
        ∀ other otherBlocks, Buffer.AgreesOutside start stop dest other →
          Relocatable other (dest.base - imageBase) start stop otherBlocks →
          AllKnown otherBlocks →
          (tablePatches (dest.base - imageBase) blocks).Perm
            (tablePatches (dest.base - imageBase) otherBlocks) →
          ∃ otherAfter,
            SettlesTo (relocateDirectory other start stop imageBase)
              (.ok (.ok (), otherAfter)) ∧
            Buffer.AgreesOutside start stop after otherAfter) ∧
    (¬ AllKnown blocks → dest.base - imageBase ≠ 0 →
      ∃ after, SettlesTo (relocateDirectory dest start stop imageBase)
        (.ok (.error 0, after))) := by
  constructor
  · intro known apart
    refine ⟨_, relocatable.settles known, ⟨dest.patched_sameObject _, ?_, ?_⟩, ?_⟩
    · intro patch member
      exact dest.number_patched apart (fun other within => (relocatable.fits other within).1) member
    · intro index uncovered
      exact dest.byte_patched_of_not_covers uncovered
    · intro other otherBlocks agrees otherRelocatable otherKnown perm
      have sameBase := agrees.same.base
      rw [← sameBase] at otherRelocatable
      refine ⟨_, otherRelocatable.settles otherKnown, ?_⟩
      rw [sameBase, dest.patched_perm perm apart]
      apply agrees.patched
      intro patch member
      exact (relocatable.fits patch (perm.mem_iff.mpr member)).2
  · intro unknown moved
    rcases relocatable.run moved with ⟨after, settles, _⟩
    rw [if_neg unknown] at settles
    exact ⟨after, settles⟩

end Table

def OneEntry.image : Buffer where
  base := 0x300000
  bytes := [0, 0, 0, 0, 10, 0, 0, 0, 0x0c, 0x30, 0, 0, 1, 2, 0xff, 0]
  bounded := by decide

def OneEntry.blocks : List RelocationBlock := [⟨0, [0x300c]⟩]

theorem OneEntry.relocatable :
    Relocatable OneEntry.image (OneEntry.image.base - 0x200000) 0 10 OneEntry.blocks where
  bounded := by decide
  table := by
    apply TableAt.cons
    · refine ⟨by decide, by decide, ?_⟩
      intro index inside
      obtain rfl : index = 0 := Nat.lt_one_iff.mp inside
      rfl
    · exact .nil
  inside := by decide
  fits := by
    intro patch member
    obtain rfl : patch = ⟨12, 4, 0x100000⟩ := List.mem_singleton.mp member
    exact ⟨Nat.le_refl 16, Or.inr (by decide)⟩

theorem OneEntry.allKnown : AllKnown OneEntry.blocks := by
  simp [AllKnown, KnownType, OneEntry.blocks]

/-- The number 0xff0201 is moved by the difference of the bases. -/
theorem relocateImage_exact_one_entry :
    ∃ after, SettlesTo (relocateDirectory OneEntry.image 0 10 0x200000) (.ok (.ok (), after)) ∧
      after.number 12 4 = 0x10f0201 := by
  rcases (relocateImage_exact OneEntry.relocatable).1 OneEntry.allKnown
    (List.pairwise_singleton _ _) with ⟨after, settles, patched, _⟩
  refine ⟨after, settles, ?_⟩
  exact patched.fields ⟨12, 4, 0x100000⟩ (List.mem_singleton.mpr rfl)

end HypervisorFirmware.Efi
