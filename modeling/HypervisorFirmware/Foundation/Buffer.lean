import HypervisorFirmware.Foundation.ByteMemory
import HypervisorFirmware.Foundation.Execution

/-! # Objects in memory

A buffer is an object with an address. An access through a pointer is checked against
the bounds of the object, and one that leaves it is undefined. -/

namespace HypervisorFirmware

/-- The bytes of an object, which does not wrap around the address space. -/
structure Buffer where
  base : UInt64
  bytes : List UInt8
  bounded : base.toNat + bytes.length ≤ 2 ^ 64

namespace Buffer

def size (buffer : Buffer) : Nat := buffer.bytes.length

def byte (buffer : Buffer) (index : Nat) : UInt8 := buffer.bytes.getD index 0

def offset (buffer : Buffer) (address : UInt64) : Nat := (address - buffer.base).toNat

/-- The bytes from an address on are inside of the buffer. An access to no bytes is
inside everywhere. -/
def Contains (buffer : Buffer) (address : UInt64) (length : Nat) : Prop :=
  length = 0 ∨ buffer.offset address + length ≤ buffer.size

instance (buffer : Buffer) (address : UInt64) (length : Nat) :
    Decidable (buffer.Contains address length) :=
  inferInstanceAs (Decidable (_ ∨ _))

def memory (buffer : Buffer) : ByteMemory := fun address => buffer.byte (buffer.offset address)

def load (buffer : Buffer) (address : UInt64) (length : Nat)
    (decode : ByteMemory → UInt64 → α) : Exec α :=
  if buffer.Contains address length then .ok (decode buffer.memory address)
  else .error .undefined

def slice (buffer : Buffer) (start length : Nat) : List UInt8 :=
  (List.range length).map fun index => buffer.byte (start + index)

def read (buffer : Buffer) (address : UInt64) (length : Nat) : Exec (List UInt8) :=
  if buffer.Contains address length then .ok (buffer.slice (buffer.offset address) length)
  else .error .undefined

def overwrite (buffer : Buffer) (start : Nat) (data : List UInt8) : Buffer where
  base := buffer.base
  bytes := (List.range buffer.size).map fun index =>
    if start ≤ index ∧ index < start + data.length then data.getD (index - start) 0
    else buffer.byte index
  bounded := by
    rw [List.length_map, List.length_range]
    exact buffer.bounded

def write (buffer : Buffer) (address : UInt64) (data : List UInt8) : Exec Buffer :=
  if buffer.Contains address data.length then
    .ok (buffer.overwrite (buffer.offset address) data)
  else .error .undefined

/-! ## Checks -/

section Checks

variable {buffer : Buffer} {address : UInt64} {length : Nat}

theorem load_inside {decode : ByteMemory → UInt64 → α} (inside : buffer.Contains address length) :
    buffer.load address length decode = .ok (decode buffer.memory address) := if_pos inside

theorem load_outside {decode : ByteMemory → UInt64 → α}
    (outside : ¬ buffer.Contains address length) :
    buffer.load address length decode = .error .undefined := if_neg outside

end Checks

/-! ## Bytes -/

@[simp] theorem length_slice (buffer : Buffer) (start length : Nat) :
    (buffer.slice start length).length = length := by
  simp [slice]

variable {index : Nat} {data : List UInt8}

section

variable (buffer : Buffer)

theorem getD_slice {start length : Nat} (inside : index < length) :
    (buffer.slice start length).getD index 0 = buffer.byte (start + index) := by
  simp [slice, List.getD, inside]

@[simp] theorem size_overwrite (start : Nat) (data : List UInt8) :
    (buffer.overwrite start data).size = buffer.size := by
  rw [size, overwrite, List.length_map, List.length_range]

theorem byte_overwrite (start : Nat) (data : List UInt8) (inside : index < buffer.size) :
    (buffer.overwrite start data).byte index =
      if start ≤ index ∧ index < start + data.length then data.getD (index - start) 0
      else buffer.byte index := by
  rw [byte, overwrite, List.getD, List.getElem?_map, List.getElem?_range inside,
    Option.map_some, Option.getD_some]

theorem getElem?_bytes (inside : index < buffer.size) :
    buffer.bytes[index]? = some (buffer.byte index) := by
  rw [byte, List.getD, List.getElem?_eq_getElem inside, Option.getD_some]

theorem byte_outside (outside : buffer.size ≤ index) : buffer.byte index = 0 := by
  rw [byte, List.getD, List.getElem?_eq_none outside, Option.getD_none]

theorem byte_overwrite_of_outside {start : Nat}
    (outside : index < start ∨ start + data.length ≤ index) :
    (buffer.overwrite start data).byte index = buffer.byte index := by
  by_cases inside : index < buffer.size
  · rw [buffer.byte_overwrite start data inside, if_neg (by omega)]
  · rw [byte_outside, byte_outside]
    · omega
    · rw [size_overwrite]
      omega

theorem byte_overwrite_of_inside {start : Nat} (behind : start ≤ index)
    (before : index < start + data.length) (inside : index < buffer.size) :
    (buffer.overwrite start data).byte index = data.getD (index - start) 0 := by
  rw [buffer.byte_overwrite start data inside, if_pos ⟨behind, before⟩]

theorem bytes_overwrite {start : Nat} (inside : start + data.length ≤ buffer.size) :
    (buffer.overwrite start data).bytes =
      buffer.bytes.take start ++ data ++ buffer.bytes.drop (start + data.length) := by
  have before : (buffer.bytes.take start).length = start := by
    rw [List.length_take, Nat.min_eq_left]
    exact Nat.le_trans (Nat.le_add_right _ _) inside
  apply List.ext_getElem?
  intro index
  by_cases bound : index < buffer.size
  · have written : index < (buffer.overwrite start data).size := by
      rwa [size_overwrite]
    rw [getElem?_bytes _ written, List.append_assoc]
    by_cases early : index < start
    · rw [byte_overwrite_of_outside buffer (.inl early), List.getElem?_append_left (by omega),
        List.getElem?_take_of_lt early, getElem?_bytes buffer bound]
    · rw [List.getElem?_append_right (by omega), before]
      by_cases here : index < start + data.length
      · rw [byte_overwrite_of_inside buffer (by omega) here bound,
          List.getElem?_append_left (by omega), List.getD,
          List.getElem?_eq_getElem (by omega), Option.getD_some]
      · rw [byte_overwrite_of_outside buffer (.inr (by omega)),
          List.getElem?_append_right (by omega), List.getElem?_drop,
          ← getElem?_bytes buffer bound]
        congr 1
        omega
  · have behind : (buffer.overwrite start data).bytes.length ≤ index := by
      have size := size_overwrite buffer start data
      rw [Buffer.size] at size
      omega
    rw [List.getElem?_eq_none behind, List.getElem?_eq_none]
    rw [List.length_append, List.length_append, List.length_drop, before]
    unfold Buffer.size at bound inside
    omega

end

structure SameObject (before after : Buffer) : Prop where
  base : after.base = before.base
  size : after.size = before.size

theorem SameObject.refl (buffer : Buffer) : SameObject buffer buffer := ⟨rfl, rfl⟩

theorem SameObject.trans {before between after : Buffer} (first : SameObject before between)
    (second : SameObject between after) : SameObject before after :=
  ⟨second.base.trans first.base, second.size.trans first.size⟩

theorem SameObject.offset {before after : Buffer} (same : SameObject before after)
    (address : UInt64) : after.offset address = before.offset address := by
  rw [Buffer.offset, Buffer.offset, same.base]

theorem overwrite_sameObject (buffer : Buffer) (start : Nat) (data : List UInt8) :
    SameObject buffer (buffer.overwrite start data) := ⟨rfl, size_overwrite buffer start data⟩

/-! ## Addresses -/

variable (buffer : Buffer)

theorem offset_base_add (distance : UInt64) :
    buffer.offset (buffer.base + distance) = distance.toNat := by
  rw [offset, UInt64.add_comm, UInt64.add_sub_cancel]

@[simp] theorem offset_base : buffer.offset buffer.base = 0 := by
  rw [offset, UInt64.sub_self]
  rfl

theorem contains_base_add (distance : UInt64) (length : Nat) :
    buffer.Contains (buffer.base + distance) length ↔
      length = 0 ∨ distance.toNat + length ≤ buffer.size := by
  rw [Contains, offset_base_add]

theorem contains_base (length : Nat) :
    buffer.Contains buffer.base length ↔ length ≤ buffer.size := by
  rw [Contains, offset_base]
  omega

theorem read_base (length : Nat) :
    buffer.read buffer.base length =
      if length ≤ buffer.size then .ok (buffer.slice 0 length) else .error .undefined := by
  simp only [read, contains_base, offset_base]

theorem write_base (data : List UInt8) :
    buffer.write buffer.base data =
      if data.length ≤ buffer.size then .ok (buffer.overwrite 0 data)
      else .error .undefined := by
  simp only [write, contains_base, offset_base]

theorem read_base_add (distance : UInt64) (length : Nat) :
    buffer.read (buffer.base + distance) length =
      if length = 0 ∨ distance.toNat + length ≤ buffer.size then
        .ok (buffer.slice distance.toNat length)
      else .error .undefined := by
  simp only [read, contains_base_add, offset_base_add]

theorem write_base_add (distance : UInt64) (data : List UInt8) :
    buffer.write (buffer.base + distance) data =
      if data.length = 0 ∨ distance.toNat + data.length ≤ buffer.size then
        .ok (buffer.overwrite distance.toNat data)
      else .error .undefined := by
  simp only [write, contains_base_add, offset_base_add]

/-- Inside of a buffer, addresses do not wrap. -/
theorem offset_add {address distance : UInt64}
    (inside : buffer.offset address + distance.toNat < 2 ^ 64) :
    buffer.offset (address + distance) = buffer.offset address + distance.toNat := by
  have same : address + distance - buffer.base = address - buffer.base + distance := by
    rw [UInt64.sub_eq_add_neg, UInt64.sub_eq_add_neg, UInt64.add_assoc, UInt64.add_assoc,
      UInt64.add_comm distance]
  rw [offset, same, UInt64.toNat_add]
  exact Nat.mod_eq_of_lt inside

end Buffer

end HypervisorFirmware
