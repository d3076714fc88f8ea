import HypervisorFirmware.Foundation.ByteMemory
import HypervisorFirmware.Foundation.Execution

/-! # Virtio over PCI

`pci.rs` finds the registers of a virtio device: `PciDevice::init` decodes the base
address registers, and `VirtioPciTransport::init` walks the capabilities of the device
and puts together where its regions are. -/

namespace HypervisorFirmware.Pci

/-! ## Configuration space -/

/-- The 256 bytes of configuration space, as the 64 registers that the data port reads. -/
abbrev ConfigSpace := Fin 64 → UInt32

section

variable (config : ConfigSpace) (offset : UInt8)

def ConfigSpace.register : UInt32 :=
  config (Fin.ofNat 64 (offset.toNat / 4))

/-- The assertions on device and function number hold for what `search_bus` finds. -/
def pciConfigReadU32 : Exec UInt32 :=
  if offset % 4 = 0 then .ok (config.register (offset &&& 0xfc)) else .error .panicked

def pciConfigReadU8 : Exec UInt8 := do
  let value ← pciConfigReadU32 config (offset &&& ~~~3)
  return (value >>> (offset % 4 * 8).toUInt32).toUInt8

def pciConfigReadU16 : Exec UInt16 :=
  if offset % 2 = 0 then do
    let value ← pciConfigReadU32 config (offset &&& ~~~3)
    return (value >>> (offset % 4 * 8).toUInt32).toUInt16
  else .error .panicked

end

def getDeviceDetails (config : ConfigSpace) : Exec (UInt16 × UInt16) := do
  let vendorId ← pciConfigReadU16 config 0
  let deviceId ← pciConfigReadU16 config 2
  return (vendorId, deviceId)

/-! ## Base addresses -/

inductive PciBarType
  | unused
  | memorySpace32
  | memorySpace64
  | ioSpace
  deriving DecidableEq

structure PciBar where
  barType : PciBarType := .unused
  address : UInt64 := 0
  deriving DecidableEq

structure PciDevice where
  bars : Vector PciBar 6 := Vector.replicate 6 {}
  vendorId : UInt16 := 0
  deviceId : UInt16 := 0

namespace PciDevice

def setBar (device : PciDevice) (currentBar : Nat) (bar : PciBar) : Exec PciDevice :=
  if inside : currentBar < 6 then .ok { device with bars := device.bars.set currentBar bar inside }
  else .error .panicked

structure BarState where
  currentBarOffset : UInt8
  currentBar : Nat
  device : PciDevice

def initBody (config : ConfigSpace) (state : BarState) : Exec (BarState ⊕ PciDevice) :=
  let ⟨currentBarOffset, currentBar, device⟩ := state
  if currentBarOffset < 0x24 then do
    let bar ← pciConfigReadU32 config currentBarOffset
    if bar &&& 1 = 1 then
      let device ← device.setBar currentBar ⟨.ioSpace, (bar &&& 0xfffffffc).toUInt64⟩
      return .inl ⟨currentBarOffset + 4, currentBar + 1, device⟩
    else if bar >>> 1 &&& 3 = 0 then
      let device ← device.setBar currentBar ⟨.memorySpace32, (bar &&& 0xfffffff0).toUInt64⟩
      return .inl ⟨currentBarOffset + 4, currentBar + 1, device⟩
    else if bar >>> 1 &&& 3 = 2 then
      -- The upper half is in the next register.
      let currentBarOffset := currentBarOffset + 4
      let upper ← pciConfigReadU32 config currentBarOffset
      let device ← device.setBar currentBar
        ⟨.memorySpace64, (bar &&& 0xfffffff0).toUInt64 + upper.toUInt64 <<< 32⟩
      return .inl ⟨currentBarOffset + 4, currentBar + 1, device⟩
    else .error .panicked
  else return .inr device

def init (fuel : Nat) (config : ConfigSpace) (device : PciDevice) : Exec PciDevice := do
  let (vendorId, deviceId) ← getDeviceDetails config
  Loop.run (initBody config) fuel ⟨0x10, 0, { device with vendorId, deviceId }⟩

end PciDevice

/-! ## Capabilities -/

inductive VirtioError
  | virtioUnsupportedDevice
  deriving DecidableEq

structure VirtioPciTransport where
  device : PciDevice := {}
  region : MemoryRegion := ⟨0, 0⟩
  notifyRegion : MemoryRegion := ⟨0, 0⟩
  notifyOffMultiplier : UInt32 := 0
  deviceConfigRegion : MemoryRegion := ⟨0, 0⟩

namespace VirtioPciTransport

def capabilityRegion (device : PciDevice) (bar : UInt8) (offset length : UInt32) :
    Exec MemoryRegion :=
  match device.bars[bar.toNat]? with
  | some bar => .ok ⟨bar.address + offset.toUInt64, length.toUInt64⟩
  | none => .error .panicked

def vendorCapability (config : ConfigSpace) (transport : VirtioPciTransport) (capNext : UInt8) :
    Exec VirtioPciTransport := do
  let cfgType ← pciConfigReadU8 config (capNext + 3)
  let bar ← pciConfigReadU8 config (capNext + 4)
  let offset ← pciConfigReadU32 config (capNext + 8)
  let length ← pciConfigReadU32 config (capNext + 12)
  if cfgType = 1 then
    let region ← capabilityRegion transport.device bar offset length
    return { transport with region }
  else if cfgType = 2 then
    let notifyRegion ← capabilityRegion transport.device bar offset length
    let notifyOffMultiplier ← pciConfigReadU32 config (capNext + 16)
    return { transport with notifyRegion, notifyOffMultiplier }
  else if cfgType = 4 then
    let deviceConfigRegion ← capabilityRegion transport.device bar offset length
    return { transport with deviceConfigRegion }
  else return transport

structure WalkState where
  capNext : UInt8
  transport : VirtioPciTransport

def walkBody (config : ConfigSpace) (state : WalkState) :
    Exec (WalkState ⊕ VirtioPciTransport) :=
  let ⟨capNext, transport⟩ := state
  if capNext < 0xff ∧ 0 < capNext then do
    let vendor ← pciConfigReadU8 config capNext
    let transport ←
      if vendor = 0x09 then vendorCapability config transport capNext else pure transport
    let next ← pciConfigReadU8 config (capNext + 1)
    return .inl ⟨next, transport⟩
  else return .inr transport

def init (fuel : Nat) (config : ConfigSpace) (transport : VirtioPciTransport) :
    Exec (Except VirtioError Unit × VirtioPciTransport) := do
  let device ← transport.device.init fuel config
  let transport := { transport with device }
  let status ← pciConfigReadU16 config 0x06
  if status &&& ((1 : UInt16) <<< 4) = 0 then return (.error .virtioUnsupportedDevice, transport)
  else
    let capNext ← pciConfigReadU8 config 0x34
    let transport ← Loop.run (walkBody config) fuel ⟨capNext, transport⟩
    return (.ok (), transport)

end VirtioPciTransport

/-! ## What is read -/

def ConfigSpace.byte (config : ConfigSpace) (offset : UInt8) : UInt8 :=
  (config.register offset >>> (offset % 4 * 8).toUInt32).toUInt8

def ConfigSpace.halfword (config : ConfigSpace) (offset : UInt8) : UInt16 :=
  (config.register offset >>> (offset % 4 * 8).toUInt32).toUInt16

theorem aligned_down (offset : UInt8) :
    (offset &&& ~~~3) % 4 = 0 ∧ ((offset &&& ~~~3) &&& 0xfc).toNat / 4 = offset.toNat / 4 := by
  have every : ∀ bits : BitVec 8, (bits &&& ~~~3) % 4 = 0 ∧
      ((bits &&& ~~~3) &&& 0xfc).toNat / 4 = bits.toNat / 4 := by decide
  have here := every offset.toBitVec
  exact ⟨UInt8.toBitVec_inj.mp here.1, here.2⟩

@[simp] theorem pciConfigReadU8_eq (config : ConfigSpace) (offset : UInt8) :
    pciConfigReadU8 config offset = .ok (config.byte offset) := by
  rw [pciConfigReadU8, pciConfigReadU32, if_pos (aligned_down offset).1, ConfigSpace.byte,
    ConfigSpace.register, ConfigSpace.register, (aligned_down offset).2]
  rfl

theorem pciConfigReadU16_even (config : ConfigSpace) {offset : UInt8} (even : offset % 2 = 0) :
    pciConfigReadU16 config offset = .ok (config.halfword offset) := by
  rw [pciConfigReadU16, if_pos even, pciConfigReadU32, if_pos (aligned_down offset).1,
    ConfigSpace.halfword, ConfigSpace.register, ConfigSpace.register, (aligned_down offset).2]
  rfl

theorem pciConfigReadU32_aligned (config : ConfigSpace) {offset : UInt8}
    (aligned : offset % 4 = 0) :
    pciConfigReadU32 config offset = .ok (config.register offset) := by
  have every : ∀ bits : BitVec 8, bits % 4 = 0 → bits &&& 0xfc = bits := by decide
  have same : offset &&& 0xfc = offset :=
    UInt8.toBitVec_inj.mp (every offset.toBitVec (UInt8.toBitVec_inj.mpr aligned))
  rw [pciConfigReadU32, if_pos aligned, same]

theorem pciConfigReadU32_unaligned (config : ConfigSpace) {offset : UInt8}
    (unaligned : offset % 4 ≠ 0) : pciConfigReadU32 config offset = .error .panicked :=
  if_neg unaligned

end HypervisorFirmware.Pci
