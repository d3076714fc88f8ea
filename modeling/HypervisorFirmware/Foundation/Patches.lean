import Mathlib.Data.List.Pairwise
import HypervisorFirmware.Foundation.Buffer

/-! # Patches of a buffer

Numbers in a buffer that are added to in place, one after the other. Patches of fields
that do not overlap leave each other alone, so that their order does not matter. Nothing
here depends on the program being modelled. -/

namespace HypervisorFirmware

/-! ## Numbers in a buffer -/

namespace Buffer

def number (buffer : Buffer) : (position width : Nat) → Nat
  | _, 0 => 0
  | position, width + 1 =>
    (buffer.byte position).toNat + 256 * buffer.number (position + 1) width

theorem number_lt (buffer : Buffer) (position width : Nat) :
    buffer.number position width < 256 ^ width := by
  induction width generalizing position with
  | zero => exact Nat.one_pos
  | succ width induction =>
    have low := (buffer.byte position).toNat_lt
    have high := induction (position + 1)
    rw [number, Nat.pow_succ]
    omega

theorem number_congr {left right : Buffer} {position width : Nat}
    (same : ∀ index, position ≤ index → index < position + width →
      left.byte index = right.byte index) :
    left.number position width = right.number position width := by
  induction width generalizing position with
  | zero => rfl
  | succ width induction =>
    rw [number, number, same position (Nat.le_refl position) (by omega),
      induction fun index behind before => same index (by omega) (by omega)]

theorem memory_base_add (buffer : Buffer) {position : Nat} (inside : position < 2 ^ 64) :
    buffer.memory (buffer.base + UInt64.ofNat position) = buffer.byte position := by
  rw [memory, offset_base_add, UInt64.toNat_ofNat', Nat.mod_eq_of_lt inside]

theorem readNat_memory (buffer : Buffer) {position width : Nat}
    (inside : position + width ≤ 2 ^ 64) :
    buffer.memory.readNat (buffer.base + UInt64.ofNat position) width =
      buffer.number position width := by
  induction width generalizing position with
  | zero => rfl
  | succ width induction =>
    have next : buffer.base + UInt64.ofNat position + 1 =
        buffer.base + UInt64.ofNat (position + 1) := by
      rw [UInt64.ofNat_add, UInt64.add_assoc]
      rfl
    rw [ByteMemory.readNat, number, memory_base_add buffer (by omega), next, induction (by omega)]

theorem ext_bytes {left right : Buffer} (same : SameObject left right)
    (bytes : ∀ index < left.size, left.byte index = right.byte index) : left = right := by
  have list : left.bytes = right.bytes := by
    apply List.ext_getElem?
    intro index
    by_cases inside : index < left.size
    · rw [getElem?_bytes left inside, getElem?_bytes right (by rw [same.size]; exact inside),
        bytes index inside]
    · have outside : right.size ≤ index := by
        rw [same.size]
        omega
      rw [List.getElem?_eq_none (Nat.not_lt.mp inside), List.getElem?_eq_none outside]
  rcases left with ⟨base, leftBytes, bounded⟩
  rcases right with ⟨base', rightBytes, bounded'⟩
  obtain rfl : base' = base := same.base
  obtain rfl : leftBytes = rightBytes := list
  rfl

theorem number_littleEndian {buffer : Buffer} {position width value : Nat} (bytes : ∀ index < width,
      buffer.byte (position + index) = (ByteMemory.littleEndian width value).getD index 0) :
    buffer.number position width = value % 256 ^ width := by
  induction width generalizing position value with
  | zero => rw [Nat.pow_zero, Nat.mod_one, number]
  | succ width induction =>
    have low : buffer.byte position = UInt8.ofNat value := bytes 0 (Nat.succ_pos width)
    have high := @induction (position + 1) (value / 256) (by
      intro index bound
      have here : buffer.byte (position + (index + 1)) =
        (ByteMemory.littleEndian width (value / 256)).getD index 0 := bytes (index + 1) (by omega)
      rwa [Nat.add_comm index, ← Nat.add_assoc] at here)
    rw [number, low, high, Nat.pow_succ, Nat.mul_comm (256 ^ width), Nat.mod_mul,
      UInt8.toNat_ofNat']

theorem getD_littleEndian_number (buffer : Buffer) {position width index : Nat}
    (inside : index < width) :
    (ByteMemory.littleEndian width (buffer.number position width)).getD index 0 =
      buffer.byte (position + index) := by
  induction width generalizing position index with
  | zero => omega
  | succ width induction =>
    have low := (buffer.byte position).toNat_lt
    rw [number, ByteMemory.littleEndian]
    cases index with
    | zero =>
      apply UInt8.toNat_inj.mp
      change (UInt8.ofNat _).toNat = (buffer.byte position).toNat
      rw [UInt8.toNat_ofNat']
      omega
    | succ index =>
      have rest : ((buffer.byte position).toNat + 256 * buffer.number (position + 1) width) /
          256 = buffer.number (position + 1) width := by omega
      rw [List.getD_cons_succ, rest, induction (by omega), Nat.add_assoc, Nat.add_comm 1 index]

end Buffer

/-! ## One patch -/

structure Patch where
  position : Nat
  width : Nat
  amount : Nat
  deriving DecidableEq

namespace Patch

def Covers (patch : Patch) (index : Nat) : Prop :=
  patch.position ≤ index ∧ index < patch.position + patch.width

def Inside (patch : Patch) (size : Nat) : Prop := patch.position + patch.width ≤ size

def Apart (left right : Patch) : Prop :=
  left.position + left.width ≤ right.position ∨ right.position + right.width ≤ left.position

instance : Std.Symm Apart := ⟨fun _ _ => Or.symm⟩

/-- Add to the field, which wraps at its width. -/
def apply (buffer : Buffer) (patch : Patch) : Buffer :=
  buffer.overwrite patch.position (ByteMemory.littleEndian patch.width
    (buffer.number patch.position patch.width + patch.amount))

theorem apply_sameObject (buffer : Buffer) (patch : Patch) :
    Buffer.SameObject buffer (apply buffer patch) :=
  Buffer.overwrite_sameObject buffer _ _

variable {index : Nat} {patch : Patch}

variable (buffer : Buffer)

theorem byte_apply (patch : Patch) (inside : index < buffer.size) :
    (apply buffer patch).byte index =
      if patch.position ≤ index ∧ index < patch.position + patch.width then
        (ByteMemory.littleEndian patch.width
          (buffer.number patch.position patch.width + patch.amount)).getD
          (index - patch.position) 0
      else buffer.byte index := by
  rw [apply, Buffer.byte_overwrite _ _ _ inside, ByteMemory.length_littleEndian]

theorem byte_apply_of_not_covers (uncovered : ¬ patch.Covers index) :
    (apply buffer patch).byte index = buffer.byte index := by
  apply Buffer.byte_overwrite_of_outside
  rw [ByteMemory.length_littleEndian]
  unfold Covers at uncovered
  omega

theorem number_apply_of_apart {other : Patch} (apart : patch.Apart other) :
    (apply buffer patch).number other.position other.width =
      buffer.number other.position other.width := by
  apply Buffer.number_congr
  intro index behind before
  apply byte_apply_of_not_covers
  unfold Apart at apart
  unfold Covers
  omega

theorem number_apply (inside : patch.Inside buffer.size) :
    (apply buffer patch).number patch.position patch.width =
      (buffer.number patch.position patch.width + patch.amount) % 256 ^ patch.width := by
  unfold Inside at inside
  apply Buffer.number_littleEndian
  intro index bound
  rw [byte_apply buffer patch (by omega), if_pos (by omega), Nat.add_sub_cancel_left]

theorem apply_zero (nothing : patch.amount = 0) : apply buffer patch = buffer := by
  have sameObject := apply_sameObject buffer patch
  apply Buffer.ext_bytes ⟨sameObject.base.symm, sameObject.size.symm⟩
  intro index inside
  rw [sameObject.size] at inside
  rw [byte_apply buffer patch inside, nothing, Nat.add_zero]
  split
  · rw [Buffer.getD_littleEndian_number _ (by omega)]
    congr 1
    omega
  · rfl

theorem apply_comm {left right : Patch} (apart : left.Apart right) :
    apply (apply buffer left) right = apply (apply buffer right) left := by
  have flipped : right.Apart left := apart.symm
  have leftSize := (apply_sameObject buffer left).size
  have rightSize := (apply_sameObject buffer right).size
  have sameObject : Buffer.SameObject (apply (apply buffer left) right)
      (apply (apply buffer right) left) := ⟨rfl, by simp [apply]⟩
  apply Buffer.ext_bytes sameObject
  intro index inside
  rw [(apply_sameObject _ right).size, leftSize] at inside
  rw [byte_apply _ right (by omega), byte_apply _ left (by omega), byte_apply _ left (by omega),
    byte_apply _ right (by omega), number_apply_of_apart buffer apart,
    number_apply_of_apart buffer flipped]
  unfold Apart at apart
  by_cases covered : left.position ≤ index ∧ index < left.position + left.width
  · rw [if_neg (by omega), if_pos covered, if_pos covered]
  · rw [if_neg covered, if_neg covered]

end Patch

/-! ## Many patches -/

namespace Buffer

def patched (buffer : Buffer) (patches : List Patch) : Buffer := patches.foldl Patch.apply buffer

section

variable (buffer : Buffer)

@[simp] theorem patched_cons (patch : Patch) (patches : List Patch) :
    buffer.patched (patch :: patches) = (Patch.apply buffer patch).patched patches := rfl

theorem patched_append (patches more : List Patch) :
    buffer.patched (patches ++ more) = (buffer.patched patches).patched more :=
  List.foldl_append

theorem patched_sameObject (patches : List Patch) : SameObject buffer (buffer.patched patches) := by
  induction patches generalizing buffer with
  | nil => exact SameObject.refl buffer
  | cons patch patches induction =>
    exact (Patch.apply_sameObject buffer patch).trans (induction _)

theorem byte_patched_of_not_covers {patches : List Patch} {index : Nat}
    (uncovered : ∀ patch ∈ patches, ¬ patch.Covers index) :
    (buffer.patched patches).byte index = buffer.byte index := by
  induction patches generalizing buffer with
  | nil => rfl
  | cons patch patches induction =>
    rw [patched_cons, induction _ fun other member => uncovered other (.tail patch member)]
    exact Patch.byte_apply_of_not_covers buffer (uncovered patch (.head patches))

theorem number_patched_of_apart {patches : List Patch} {field : Patch}
    (apart : ∀ patch ∈ patches, patch.Apart field) :
    (buffer.patched patches).number field.position field.width =
      buffer.number field.position field.width := by
  induction patches generalizing buffer with
  | nil => rfl
  | cons patch patches induction =>
    rw [patched_cons, induction _ fun other member => apart other (.tail patch member)]
    exact Patch.number_apply_of_apart buffer (apart patch (.head patches))

/-- Each of the patches is applied, as if it were the only one. -/
theorem number_patched {patches : List Patch} (apart : patches.Pairwise Patch.Apart)
    (inside : ∀ patch ∈ patches, patch.Inside buffer.size) {field : Patch}
    (member : field ∈ patches) :
    (buffer.patched patches).number field.position field.width =
      (buffer.number field.position field.width + field.amount) % 256 ^ field.width := by
  induction patches generalizing buffer with
  | nil => cases member
  | cons patch patches induction =>
    rcases List.pairwise_cons.mp apart with ⟨first, rest⟩
    have sameSize := (Patch.apply_sameObject buffer patch).size
    rw [patched_cons]
    rcases List.mem_cons.mp member with rfl | later
    · rw [number_patched_of_apart _ fun other member => (first other member).symm]
      exact Patch.number_apply buffer (inside field (.head patches))
    · have still : ∀ other ∈ patches, other.Inside (Patch.apply buffer patch).size :=
        fun other member => sameSize ▸ inside other (.tail patch member)
      rw [induction _ rest still later, Patch.number_apply_of_apart buffer (first field later)]

theorem patched_zero {patches : List Patch} (nothing : ∀ patch ∈ patches, patch.amount = 0) :
    buffer.patched patches = buffer := by
  induction patches with
  | nil => rfl
  | cons patch patches induction =>
    rw [patched_cons, Patch.apply_zero buffer (nothing patch (.head patches)),
      induction fun other member => nothing other (.tail patch member)]

/-- The order of patches does not matter. -/
theorem patched_perm {patches others : List Patch} (perm : patches.Perm others)
    (apart : patches.Pairwise Patch.Apart) : buffer.patched patches = buffer.patched others := by
  apply perm.foldl_eq'
  intro left leftMember right rightMember between
  by_cases same : left = right
  · rw [same]
  · exact Patch.apply_comm between (apart.forall leftMember rightMember same)

end

/-- Two buffers that differ in a region only. -/
structure AgreesOutside (start stop : Nat) (left right : Buffer) : Prop where
  same : SameObject left right
  bytes : ∀ index, index < start ∨ stop ≤ index → left.byte index = right.byte index

theorem AgreesOutside.patched {start stop : Nat} {left right : Buffer}
    (agrees : AgreesOutside start stop left right) {patches : List Patch}
    (outside : ∀ patch ∈ patches, patch.position + patch.width ≤ start ∨ stop ≤ patch.position) :
    AgreesOutside start stop (left.patched patches) (right.patched patches) := by
  induction patches generalizing left right with
  | nil => exact agrees
  | cons patch patches induction =>
    rw [patched_cons, patched_cons]
    apply induction _ fun other member => outside other (.tail patch member)
    have here := outside patch (.head patches)
    have number : left.number patch.position patch.width =
        right.number patch.position patch.width := by
      apply number_congr
      intro index behind before
      exact agrees.bytes index (by omega)
    refine ⟨⟨agrees.same.base, ?_⟩, ?_⟩
    · rw [(Patch.apply_sameObject right patch).size, (Patch.apply_sameObject left patch).size,
        agrees.same.size]
    · intro index away
      have sizes := agrees.same.size
      by_cases inside : index < left.size
      · rw [Patch.byte_apply left patch inside, Patch.byte_apply right patch (by omega), number,
          agrees.bytes index away]
      · rw [byte_outside, byte_outside]
        · rw [(Patch.apply_sameObject right patch).size]
          omega
        · rw [(Patch.apply_sameObject left patch).size]
          omega

end Buffer

end HypervisorFirmware
