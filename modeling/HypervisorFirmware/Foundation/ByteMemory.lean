import Mathlib.Algebra.Group.Nat.Defs
import Mathlib.Data.List.Basic

/-! # Byte-addressed memory

A 64-bit address space of bytes, read as little-endian numbers. -/

namespace HypervisorFirmware

/-- The contents of memory. Addresses wrap. -/
abbrev ByteMemory := UInt64 → UInt8

/-- A part of memory by its address and length. -/
structure MemoryRegion where
  base : UInt64
  length : UInt64
  deriving DecidableEq

namespace ByteMemory

def readNat (memory : ByteMemory) (address : UInt64) : Nat → Nat
  | 0 => 0
  | count + 1 => (memory address).toNat + 256 * memory.readNat (address + 1) count

section

variable (memory : ByteMemory) (address : UInt64)

theorem readNat_of_bytes (value count : Nat) (bytes : ∀ index < count,
      memory (address + UInt64.ofNat index) = UInt8.ofNat (value / 256 ^ index)) :
    memory.readNat address count = value % 256 ^ count := by
  induction count generalizing address value with
  | zero => rw [readNat, Nat.pow_zero, Nat.mod_one]
  | succ count induction =>
    have low : memory address = UInt8.ofNat value := by
      simpa using bytes 0 (Nat.succ_pos count)
    have high := induction (address + 1) (value / 256) (by
      intro index inside
      have byte := bytes (index + 1) (Nat.succ_lt_succ inside)
      rw [Nat.pow_succ', ← Nat.div_div_eq_div_mul] at byte
      rw [← byte, UInt64.ofNat_add, UInt64.add_assoc, UInt64.add_comm 1]
      rfl)
    have split : value % 256 ^ (count + 1) = value % 256 + 256 * (value / 256 % 256 ^ count) := by
      rw [Nat.pow_succ', Nat.mod_mul]
    rw [readNat, low, high, split, UInt8.toNat_ofNat']

def readUInt16 : UInt16 :=
  UInt16.ofNat (memory.readNat address 2)

def readUInt32 : UInt32 :=
  UInt32.ofNat (memory.readNat address 4)

def readUInt64 : UInt64 :=
  UInt64.ofNat (memory.readNat address 8)

end

/-- The bytes of a number, the least significant first. What does not fit is left out. -/
def littleEndian : (count value : Nat) → List UInt8
  | 0, _ => []
  | count + 1, value => UInt8.ofNat value :: littleEndian count (value / 256)

@[simp] theorem length_littleEndian (count value : Nat) :
    (littleEndian count value).length = count := by
  induction count generalizing value with
  | zero => rfl
  | succ count induction => rw [littleEndian, List.length_cons, induction]

section

variable (memory : ByteMemory) (address : UInt64)

def bytes (count : Nat) : List UInt8 :=
  (List.range count).map fun index => memory (address + UInt64.ofNat index)

@[simp] theorem length_bytes (count : Nat) : (memory.bytes address count).length = count := by
  simp [bytes]

theorem bytes_add (count more : Nat) :
    memory.bytes address (count + more) =
      memory.bytes address count ++ memory.bytes (address + UInt64.ofNat count) more := by
  simp [bytes, List.range_add, UInt64.ofNat_add, UInt64.add_assoc, Function.comp_def]

theorem take_bytes {count all : Nat} (inside : count ≤ all) :
    (memory.bytes address all).take count = memory.bytes address count := by
  rw [bytes, ← List.map_take, List.take_range, Nat.min_eq_left inside]
  rfl

def write (data : List UInt8) : ByteMemory :=
  fun other =>
    if (other - address).toNat < data.length then data.getD (other - address).toNat 0
    else memory other

end

theorem write_of_outside (memory : ByteMemory) {address other : UInt64} {data : List UInt8}
    (outside : data.length ≤ (other - address).toNat) :
    memory.write address data other = memory other := if_neg (Nat.not_lt.mpr outside)

theorem bytes_write (memory : ByteMemory) (address : UInt64) {data : List UInt8}
    (few : data.length ≤ 2 ^ 64) :
    (memory.write address data).bytes address data.length = data := by
  apply List.ext_getElem (length_bytes _ _ _)
  intro index _ inside
  have distance : (address + UInt64.ofNat index - address).toNat = index := by
    rw [UInt64.add_comm, UInt64.add_sub_cancel, UInt64.toNat_ofNat', Nat.mod_eq_of_lt (by omega)]
  simp only [bytes, write, List.getElem_map, List.getElem_range, distance, if_pos inside]
  simp [inside]

theorem readNat_congr {memory other : ByteMemory} {address : UInt64} {count : Nat}
    (same : ∀ index < count,
      memory (address + UInt64.ofNat index) = other (address + UInt64.ofNat index)) :
    memory.readNat address count = other.readNat address count := by
  induction count generalizing address with
  | zero => rfl
  | succ count induction =>
    have first : memory address = other address := by simpa using same 0 (Nat.succ_pos count)
    have rest := @induction (address + 1) (by
      intro index inside
      have later := same (index + 1) (Nat.succ_lt_succ inside)
      rwa [UInt64.ofNat_add, UInt64.add_comm (UInt64.ofNat index), ← UInt64.add_assoc] at later)
    rw [readNat, readNat, first, rest]

variable {index : Nat}

theorem getD_littleEndian {count value : Nat} (inside : index < count) :
    (littleEndian count value).getD index 0 = UInt8.ofNat (value / 256 ^ index) := by
  induction count generalizing value index with
  | zero => omega
  | succ count induction =>
    cases index with
    | zero => simp [littleEndian]
    | succ index =>
      rw [littleEndian, List.getD_cons_succ, induction (by omega), Nat.pow_succ',
        Nat.div_div_eq_div_mul]

/-- A number that was written is read back, without what does not fit. -/
theorem readNat_write (memory : ByteMemory) (address : UInt64) (value : Nat) {count : Nat}
    (few : count ≤ 2 ^ 64) :
    (memory.write address (littleEndian count value)).readNat address count =
      value % 256 ^ count := by
  apply readNat_of_bytes
  intro index inside
  have distance : (address + UInt64.ofNat index - address).toNat = index := by
    rw [UInt64.add_comm, UInt64.add_sub_cancel, UInt64.toNat_ofNat',
      Nat.mod_eq_of_lt (Nat.lt_of_lt_of_le inside few)]
  rw [write, distance, length_littleEndian, if_pos inside, getD_littleEndian inside]

def ofWords (words : List UInt64) : ByteMemory := fun address =>
  let word := words.getD (address.toNat / 8) 0
  UInt8.ofNat (word.toNat / 256 ^ (address.toNat % 8))

theorem readNat_ofWords (words : List UInt64) {count : Nat} (inside : 8 * index + 8 ≤ 2 ^ 64)
    (few : count ≤ 8) :
    (ofWords words).readNat (UInt64.ofNat (8 * index)) count =
      (words.getD index 0).toNat % 256 ^ count := by
  apply readNat_of_bytes
  intro offset bound
  have address : (UInt64.ofNat (8 * index) + UInt64.ofNat offset).toNat = 8 * index + offset := by
    rw [← UInt64.ofNat_add, UInt64.toNat_ofNat', Nat.mod_eq_of_lt (by omega)]
  have word : (8 * index + offset) / 8 = index := by omega
  have byte : (8 * index + offset) % 8 = offset := by omega
  rw [ofWords, address, word, byte]

theorem readUInt64_ofWords (words : List UInt64) (inside : 8 * index + 8 ≤ 2 ^ 64) :
    (ofWords words).readUInt64 (UInt64.ofNat (8 * index)) = words.getD index 0 := by
  have bound : (words.getD index 0).toNat < 256 ^ 8 := UInt64.toNat_lt _
  rw [readUInt64, readNat_ofWords words inside (Nat.le_refl 8), Nat.mod_eq_of_lt bound,
    UInt64.ofNat_toNat]

theorem readUInt32_ofWords (words : List UInt64) (inside : 8 * index + 8 ≤ 2 ^ 64) :
    (ofWords words).readUInt32 (UInt64.ofNat (8 * index)) = (words.getD index 0).toUInt32 := by
  rw [readUInt32, readNat_ofWords words inside (by decide)]
  apply UInt32.toNat_inj.mp
  rw [UInt32.toNat_ofNat', UInt64.toNat_toUInt32]
  exact Nat.mod_mod _ _

end ByteMemory

end HypervisorFirmware
