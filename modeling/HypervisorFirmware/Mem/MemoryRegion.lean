import HypervisorFirmware.Foundation.ByteMemory
import HypervisorFirmware.Foundation.Execution

/-! # Regions of memory

The checks of `mem.rs`. A region asserts that an access is inside of it; its offsets wrap
like all 64-bit numbers. -/

namespace HypervisorFirmware.MemoryRegion

/-- `as_mut_slice` and `as_slice` for elements of this size: the address of the slice. -/
def asMutSlice (region : MemoryRegion) (elementSize offset length : UInt64) : Exec UInt64 :=
  if offset + length * elementSize ≤ region.length then .ok (region.base + offset)
  else .error .panicked

/-- The check in `read` and `write` for a value of this size: the address of the value. -/
def valueAt (region : MemoryRegion) (size offset : UInt64) : Exec UInt64 :=
  if offset + (size - 1) < region.length then .ok (region.base + offset) else .error .panicked

theorem valueAt_ofNat (region : MemoryRegion) {width offset : Nat} (positive : 0 < width)
    (bounded : offset + width ≤ 2 ^ 64) :
    region.valueAt (UInt64.ofNat width) (UInt64.ofNat offset) =
      if offset + width ≤ region.length.toNat then .ok (region.base + UInt64.ofNat offset)
      else .error .panicked := by
  obtain ⟨width, rfl⟩ := Nat.exists_eq_add_of_le' positive
  have last : UInt64.ofNat offset + (UInt64.ofNat (width + 1) - 1) =
      UInt64.ofNat (offset + width) := by
    rw [UInt64.ofNat_add width, show UInt64.ofNat 1 = 1 from rfl, UInt64.add_sub_cancel,
      UInt64.ofNat_add]
  have number : (UInt64.ofNat (offset + width)).toNat = offset + width := by
    rw [UInt64.toNat_ofNat', Nat.mod_eq_of_lt (by omega)]
  simp only [valueAt, last, UInt64.lt_iff_toNat_lt, number]
  rfl

section Memory

variable (region : MemoryRegion) (memory : ByteMemory) (offset : UInt64)

def readU8 : Exec UInt8 := do return memory (← region.valueAt 1 offset)

def readU32 : Exec UInt32 := do return memory.readUInt32 (← region.valueAt 4 offset)

def writeU32 (value : UInt32) : Exec ByteMemory := do
  return memory.write (← region.valueAt 4 offset) (ByteMemory.littleEndian 4 value.toNat)

end Memory

end HypervisorFirmware.MemoryRegion
