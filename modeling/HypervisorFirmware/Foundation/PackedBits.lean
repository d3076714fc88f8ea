import Mathlib.Algebra.Group.Nat.Defs
import Mathlib.Data.Nat.Bitwise
import HypervisorFirmware.Foundation.ByteMemory

/-! # Numbers packed into bytes

A string of bytes as a string of bits, the least significant bit of each byte
first. A number that is packed into it takes a range of the bits, whether or not
the range starts at a byte. -/

namespace HypervisorFirmware

def bitAt (bytes : Nat → UInt8) (position : Nat) : Bool :=
  (bytes (position / 8)).toNat.testBit (position % 8)

def packed (bytes : Nat → UInt8) (position width : Nat) : Nat :=
  Nat.ofBits fun index : Fin width => bitAt bytes (position + index)

/-- A number is its bits: it is packed where the string has them. -/
theorem packed_eq_mod {bytes : Nat → UInt8} {position width value : Nat}
    (stored : ∀ index < width, value.testBit index = bitAt bytes (position + index)) :
    packed bytes position width = value % 2 ^ width := by
  rw [← Nat.ofBits_testBit, packed]
  congr 1
  funext index
  exact (stored index index.isLt).symm

theorem readNat_lt (memory : ByteMemory) (address : UInt64) (count : Nat) :
    memory.readNat address count < 256 ^ count := by
  induction count generalizing address with
  | zero => exact Nat.one_pos
  | succ count induction =>
    have low := (memory address).toNat_lt
    have high := induction (address + 1)
    rw [ByteMemory.readNat, Nat.pow_succ']
    omega

/-- The bits of a little-endian number are those of its bytes, in order. -/
theorem testBit_readNat (memory : ByteMemory) (address : UInt64) {count position : Nat}
    (inside : position < 8 * count) :
    (memory.readNat address count).testBit position =
      (memory (address + UInt64.ofNat (position / 8))).toNat.testBit (position % 8) := by
  induction count generalizing address position with
  | zero => omega
  | succ count induction =>
    have low : (memory address).toNat < 2 ^ 8 := (memory address).toNat_lt
    have split := Nat.testBit_two_pow_mul_add (memory.readNat (address + 1) count) low position
    rw [ByteMemory.readNat, Nat.add_comm]
    rw [show 256 = 2 ^ 8 by decide, split]
    split_ifs with first
    · rw [Nat.div_eq_of_lt first, Nat.mod_eq_of_lt first]
      simp
    · have next : position / 8 = (position - 8) / 8 + 1 := by omega
      have same : position % 8 = (position - 8) % 8 := by omega
      rw [induction (address + 1) (by omega), next, same, UInt64.ofNat_add, UInt64.add_assoc,
        UInt64.add_comm 1]
      rfl

/-- A packed number is cut out of the little-endian number of the bytes that hold
it. -/
theorem packed_eq_readNat {memory : ByteMemory} {address : UInt64} {bytes : Nat → UInt8}
    {position width count : Nat} (fits : position % 8 + width ≤ 8 * count)
    (stored : ∀ index < count,
      memory (address + UInt64.ofNat index) = bytes (position / 8 + index)) :
    packed bytes position width =
      memory.readNat address count / 2 ^ (position % 8) % 2 ^ width := by
  apply packed_eq_mod
  intro index inside
  rw [Nat.testBit_div_two_pow, testBit_readNat memory address (by omega), stored _ (by omega),
    bitAt]
  have byte : (position + index) / 8 = position / 8 + (index + position % 8) / 8 := by omega
  have bit : (position + index) % 8 = (index + position % 8) % 8 := by omega
  rw [byte, bit]

end HypervisorFirmware
