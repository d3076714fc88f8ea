import Mathlib.Order.WellFounded
import HypervisorFirmware.Pci.VirtioPci

/-! # Numbers of base address registers

A capability names a BAR by the number of its register. `PciDevice::init` numbers BARs
by how many it has decoded before, and it does not decode one that starts at the last
register. -/

namespace HypervisorFirmware.Pci

variable {config : ConfigSpace}

/-! ## What the registers encode -/

def ConfigSpace.bar (config : ConfigSpace) (register : Nat) : UInt32 :=
  config ⟨(4 + register) % 64, Nat.mod_lt _ (by decide)⟩

def barTypeOf (bar : UInt32) : Option PciBarType :=
  if bar &&& 1 = 1 then some .ioSpace
  else if bar >>> 1 &&& 3 = 0 then some .memorySpace32
  else if bar >>> 1 &&& 3 = 2 then some .memorySpace64
  else none

def barWidth (config : ConfigSpace) (register : Nat) : Nat :=
  if barTypeOf (config.bar register) = some .memorySpace64 then 2 else 1

def encodedAddress (config : ConfigSpace) (register : Nat) : UInt64 :=
  let bar := config.bar register
  match barTypeOf bar with
  | some .ioSpace => (bar &&& 0xfffffffc).toUInt64
  | some .memorySpace64 =>
    (bar &&& 0xfffffff0).toUInt64 + (config.bar (register + 1)).toUInt64 <<< 32
  | _ => (bar &&& 0xfffffff0).toUInt64

def barStart (config : ConfigSpace) : (number : Nat) → Nat
  | 0 => 0
  | number + 1 => barStart config number + barWidth config (barStart config number)

def StartsBar (config : ConfigSpace) (register : Nat) : Prop :=
  ∃ number ≤ register, barStart config number = register

instance (config : ConfigSpace) (register : Nat) : Decidable (StartsBar config register) :=
  inferInstanceAs (Decidable (∃ number ≤ register, _))

/-- The six registers are BARs of the three kinds. -/
def BarLayout (config : ConfigSpace) : Prop :=
  ∀ register < 6, StartsBar config register →
    barTypeOf (config.bar register) ≠ none ∧ register + barWidth config register ≤ 6

instance (config : ConfigSpace) : Decidable (BarLayout config) :=
  inferInstanceAs (Decidable (∀ register < 6, _))

theorem barWidth_pos (config : ConfigSpace) (register : Nat) : 0 < barWidth config register := by
  unfold barWidth
  split
  · decide
  · decide

theorem barStart_strictMono (config : ConfigSpace) : StrictMono (barStart config) := by
  apply strictMono_nat_of_lt_succ
  intro number
  have wide := barWidth_pos config (barStart config number)
  rw [barStart]
  omega

theorem startsBar_barStart (config : ConfigSpace) (number : Nat) :
    StartsBar config (barStart config number) :=
  ⟨number, (barStart_strictMono config).le_apply, rfl⟩

/-! ## What `init` decodes -/

namespace PciDevice

section

variable (config : ConfigSpace)

theorem readU32_bar {register : Nat} (inside : register < 6) :
    pciConfigReadU32 config (UInt8.ofNat (0x10 + 4 * register)) = .ok (config.bar register) := by
  have offset : (UInt8.ofNat (0x10 + 4 * register)).toNat = 0x10 + 4 * register := by
    rw [UInt8.toNat_ofNat', Nat.mod_eq_of_lt (by omega)]
  have aligned : UInt8.ofNat (0x10 + 4 * register) % 4 = 0 := by
    apply UInt8.toNat_inj.mp
    rw [UInt8.toNat_mod, offset]
    change (0x10 + 4 * register) % 4 = 0
    omega
  have quotient : (0x10 + 4 * register) / 4 = 4 + register := by omega
  rw [pciConfigReadU32_aligned config aligned, ConfigSpace.register, offset, quotient]
  rfl

def decodedBar (register : Nat) : PciBar :=
  ⟨(barTypeOf (config.bar register)).getD .unused, encodedAddress config register⟩

theorem initBody_bar {register currentBar : Nat} (before : register < 5) (slot : currentBar < 6)
    (device : PciDevice) :
    initBody config ⟨UInt8.ofNat (0x10 + 4 * register), currentBar, device⟩ =
      if barTypeOf (config.bar register) = none then .error .panicked
      else .ok (.inl ⟨UInt8.ofNat (0x10 + 4 * (register + barWidth config register)),
        currentBar + 1,
        { device with bars := device.bars.set currentBar (decodedBar config register) slot }⟩) := by
  have entered : UInt8.ofNat (0x10 + 4 * register) < 0x24 := by
    rw [UInt8.lt_iff_toNat_lt, UInt8.toNat_ofNat', Nat.mod_eq_of_lt (by omega)]
    change _ < 0x24
    omega
  have next (start : Nat) : UInt8.ofNat start + 4 = UInt8.ofNat (start + 4) := by
    rw [UInt8.ofNat_add]
    rfl
  have upper : 0x10 + 4 * register + 4 = 0x10 + 4 * (register + 1) := by omega
  have behind : 0x10 + 4 * (register + 1) + 4 = 0x10 + 4 * (register + 2) := by omega
  simp only [initBody, entered, if_true, readU32_bar config (show register < 6 by omega),
    Exec.ok_bind, next, upper, behind, readU32_bar config (show register + 1 < 6 by omega),
    decodedBar, encodedAddress, barWidth, barTypeOf, setBar, slot, dif_pos]
  split_ifs <;> simp_all

/-- What `init` comes to: it panics exactly at a kind of BAR that is not supported, and
otherwise decodes every BAR in front of the last register. -/
def InitOutcome (device : PciDevice) : Exec PciDevice → Prop
  | .ok result =>
    (∀ number, barStart config number < 5 →
      barTypeOf (config.bar (barStart config number)) ≠ none) ∧
    ∀ slot, (inside : slot < 6) → result.bars[slot] =
      if barStart config slot < 5 then decodedBar config (barStart config slot)
      else device.bars[slot]
  | .error fault => fault = .panicked ∧
      ∃ number, barStart config number < 5 ∧ barTypeOf (config.bar (barStart config number)) = none

structure Decoded (device : PciDevice) (number : Nat) (state : BarState) :
    Prop where
  offset : state.currentBarOffset = UInt8.ofNat (0x10 + 4 * barStart config number)
  count : state.currentBar = number
  inside : barStart config number ≤ 6
  supported : ∀ earlier < number, barStart config earlier < 5 ∧
    barTypeOf (config.bar (barStart config earlier)) ≠ none
  bars : ∀ slot, (inside : slot < 6) → state.device.bars[slot] =
    if slot < number then decodedBar config (barStart config slot) else device.bars[slot]

end

section

variable {device : PciDevice} {number : Nat} {state : BarState}
  (decoded : Decoded config device number state)

include decoded

theorem Decoded.next (before : barStart config number < 5)
    (supported : barTypeOf (config.bar (barStart config number)) ≠ none) (slot : number < 6) :
    Decoded config device (number + 1)
      ⟨UInt8.ofNat (0x10 + 4 * barStart config (number + 1)), number + 1,
        { state.device with
          bars := state.device.bars.set number (decodedBar config (barStart config number))
            slot }⟩ where
  offset := rfl
  count := rfl
  inside := by
    have narrow : barWidth config (barStart config number) ≤ 2 := by
      unfold barWidth
      split
      · decide
      · decide
    rw [barStart]
    omega
  supported := by
    intro earlier less
    rcases Nat.lt_succ_iff_lt_or_eq.mp less with less | rfl
    · exact decoded.supported earlier less
    · exact ⟨before, supported⟩
  bars := by
    intro index inside
    rw [Vector.getElem_set]
    by_cases same : number = index
    · rw [if_pos same, if_pos (by omega), same]
    · rw [if_neg same, decoded.bars index inside]
      by_cases earlier : index < number
      · rw [if_pos earlier, if_pos (by omega)]
      · rw [if_neg earlier, if_neg (by omega)]

theorem Decoded.iterated :
    Loop.Iterated (fun state => ∃ number, Decoded config device number state)
      (fun state => 5 - state.currentBar) (InitOutcome config device) state
      (initBody config state) := by
  rcases state with ⟨offset, currentBar, current⟩
  have counted := (barStart_strictMono config).le_apply (x := number)
  have inside := decoded.inside
  obtain rfl : offset = _ := decoded.offset
  obtain rfl : currentBar = number := decoded.count
  by_cases before : barStart config currentBar < 5
  · rw [initBody_bar config before (by omega)]
    by_cases supported : barTypeOf (config.bar (barStart config currentBar)) = none
    · rw [if_pos supported]
      exact ⟨rfl, currentBar, before, supported⟩
    · rw [if_neg supported]
      refine ⟨⟨currentBar + 1, decoded.next before supported (by omega)⟩, ?_⟩
      change 5 - (currentBar + 1) < 5 - currentBar
      omega
  · have left : ¬ UInt8.ofNat (0x10 + 4 * barStart config currentBar) < 0x24 := by
      rw [UInt8.lt_iff_toNat_lt, UInt8.toNat_ofNat', Nat.mod_eq_of_lt (by omega)]
      change ¬ _ < 0x24
      omega
    have decodedBefore (slot : Nat) : slot < currentBar ↔ barStart config slot < 5 := by
      constructor
      · intro less
        exact (decoded.supported slot less).1
      · intro less
        exact (barStart_strictMono config).lt_iff_lt.mp (by omega)
    rw [initBody, if_neg left]
    constructor
    · intro earlier less
      exact (decoded.supported earlier ((decodedBefore earlier).mpr less)).2
    · intro slot insideSlot
      rw [decoded.bars slot insideSlot]
      simp only [decodedBefore]

end

theorem init_eq (config : ConfigSpace) (device : PciDevice) (fuel : Nat) :
    device.init fuel config = Loop.run (initBody config) fuel
      ⟨0x10, 0, { device with vendorId := config.halfword 0, deviceId := config.halfword 2 }⟩ := by
  rw [init, getDeviceDetails, pciConfigReadU16_even config rfl, pciConfigReadU16_even config rfl]
  rfl

theorem init_mono {device decoded : PciDevice} {fuel more : Nat} (enough : fuel ≤ more)
    (returned : device.init fuel config = .ok decoded) : device.init more config = .ok decoded := by
  rw [init_eq] at returned ⊢
  exact Loop.run_mono enough returned

theorem init_outcome (config : ConfigSpace) (device : PciDevice) {fuel : Nat} (enough : 6 ≤ fuel) :
    InitOutcome config device (device.init fuel config) := by
  rw [init_eq]
  apply Loop.run_of_measure (fun state => ∃ number, Decoded config device number state)
    (fun state => 5 - state.currentBar) (InitOutcome config device)
  · rintro state ⟨number, decoded⟩
    exact decoded.iterated
  · refine ⟨0, rfl, rfl, Nat.zero_le 6, ?_, ?_⟩
    · intro earlier less
      omega
    · intro slot inside
      simp
  · exact enough

end PciDevice

/-! ## Numbers and registers -/

open VirtioPciTransport (capabilityRegion)

section

variable (config : ConfigSpace)

/-- The slots of `bars` are numbered by registers: a BAR is found under the number of
its register, and so are the regions in it. -/
def BarsByRegister : Prop :=
  ∃ device : PciDevice, (∀ fuel ≥ 6, PciDevice.init fuel config {} = .ok device) ∧
    ∀ register, (inside : register < 6) → StartsBar config register →
      device.bars[register].address = encodedAddress config register ∧
        ∀ offset length, capabilityRegion device (UInt8.ofNat register) offset length =
          .ok ⟨encodedAddress config register + offset.toUInt64, length.toUInt64⟩

/-- The address of a BAR when BARs are counted, without one that starts at the last
register, and zero if there are not as many. -/
def countedAddress (number : Nat) : UInt64 :=
  if barStart config number < 5 then encodedAddress config (barStart config number) else 0

/-- A BAR whose number is not that of its register, since a BAR of 64 bits is before it, or
which is not decoded, since it starts at the last register. -/
def Displaced (register : Nat) : Prop :=
  register = 5 ∨
    ∃ earlier < register, StartsBar config earlier ∧
      barTypeOf (config.bar earlier) = some .memorySpace64

/-- The displaced BARs happen to have the address of the BAR that is counted in their
place. -/
def CountedByRegister : Prop :=
  ∀ register < 6, StartsBar config register → Displaced config register →
    encodedAddress config register = countedAddress config register

end

theorem countedAddress_of_not_displaced {register : Nat} (inside : register < 6)
    (settled : ¬ Displaced config register) :
    countedAddress config register = encodedAddress config register := by
  have numbered : ∀ number ≤ register, barStart config number = number := by
    intro number
    induction number with
    | zero => exact fun _ => rfl
    | succ number induction =>
      intro below
      have itself := induction (Nat.le_of_succ_le below)
      rw [barStart, itself, barWidth, if_neg]
      intro wide
      exact settled (Or.inr ⟨number, below, itself ▸ startsBar_barStart config number, wide⟩)
  have notLast : register ≠ 5 := fun last => settled (Or.inl last)
  rw [countedAddress, numbered register (Nat.le_refl _), if_pos (by omega)]

theorem init_bars (layout : BarLayout config) :
    ∃ device : PciDevice, (∀ fuel ≥ 6, PciDevice.init fuel config {} = .ok device) ∧
      ∀ slot, (inside : slot < 6) → device.bars[slot].address = countedAddress config slot := by
  have outcome := PciDevice.init_outcome config {} (Nat.le_refl 6)
  cases returned : PciDevice.init 6 config {} with
  | error fault =>
    rw [returned] at outcome
    rcases outcome with ⟨_, number, before, unsupported⟩
    have supported := (layout _ (by omega) (startsBar_barStart config number)).1
    exact absurd unsupported supported
  | ok device =>
    rw [returned] at outcome
    refine ⟨device, ?_, ?_⟩
    · intro fuel enough
      exact PciDevice.init_mono enough returned
    · intro slot inside
      rw [outcome.2 slot inside, countedAddress]
      split
      · rfl
      · exact congrArg PciBar.address (Vector.getElem_replicate inside)

theorem capabilityRegion_eq (device : PciDevice) {register : Nat} (inside : register < 6)
    (offset length : UInt32) :
    capabilityRegion device (UInt8.ofNat register) offset length =
      .ok ⟨device.bars[register].address + offset.toUInt64, length.toUInt64⟩ := by
  have number : (UInt8.ofNat register).toNat = register := by
    rw [UInt8.toNat_ofNat', Nat.mod_eq_of_lt (by omega)]
  rw [capabilityRegion, number, Vector.getElem?_eq_getElem inside]

theorem barsByRegister_iff_countedByRegister (layout : BarLayout config) :
    BarsByRegister config ↔ CountedByRegister config := by
  rcases init_bars layout with ⟨device, decoded, bars⟩
  constructor
  · rintro ⟨other, returned, byRegister⟩ register inside starts _
    have same : other = device := by
      have both := (returned 6 (Nat.le_refl 6)).symm.trans (decoded 6 (Nat.le_refl 6))
      exact Except.ok.inj both
    rw [← (byRegister register inside starts).1, same, bars register inside]
  · intro counted
    refine ⟨device, decoded, ?_⟩
    intro register inside starts
    have address : device.bars[register].address = encodedAddress config register := by
      rw [bars register inside]
      by_cases displaced : Displaced config register
      · exact (counted register inside starts displaced).symm
      · exact countedAddress_of_not_displaced inside displaced
    refine ⟨address, ?_⟩
    intro offset length
    rw [capabilityRegion_eq device inside, address]

def lastWide : ConfigSpace := fun index => if index.val = 8 then 0xfe000004 else 0

theorem barsByRegister_iff_countedByRegister_last_wide :
    BarLayout lastWide ∧ (BarsByRegister lastWide ↔ CountedByRegister lastWide) :=
  ⟨by decide, barsByRegister_iff_countedByRegister (by decide)⟩

def firstWide : ConfigSpace := fun index =>
  if index.val = 4 then 0xfe000004 else if index.val = 6 then 0xfd000000 else 0

/-- The BAR of register 2 is in slot 1, and slot 2 has the address of register 3. -/
theorem not_barsByRegister_first_wide :
    BarLayout firstWide ∧ StartsBar firstWide 2 ∧ ¬ BarsByRegister firstWide := by
  have layout : BarLayout firstWide := by decide
  have starts : StartsBar firstWide 2 := by decide
  refine ⟨layout, starts, ?_⟩
  rintro ⟨other, returned, byRegister⟩
  rcases init_bars layout with ⟨device, decoded, bars⟩
  have both := (returned 6 (Nat.le_refl 6)).symm.trans (decoded 6 (Nat.le_refl 6))
  have found := (byRegister 2 (by decide) starts).1
  rw [Except.ok.inj both, bars 2 (by decide)] at found
  exact absurd found (by decide)

end HypervisorFirmware.Pci
