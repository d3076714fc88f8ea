import Mathlib.Data.Nat.Bitwise
import HypervisorFirmware.Foundation.Budget
import HypervisorFirmware.Foundation.ByteMemory

/-! # Images in firmware volumes

`pi/fv_lib.rs` looks for an image in two levels of chunks: the files of a volume, which
are aligned to 8 bytes, and the sections of a file, which are aligned to 4. Both scans
round the end of a chunk up to the next one with a mask of 32 bits, and both stop at the
first chunk that is too small or does not fit. -/

namespace HypervisorFirmware.Pi

/-! ## The model -/

def fvhSignature : UInt32 := 0x4856465f

def fvFiletypeApplication : UInt8 := 0x09

def sectionPe32 : UInt8 := 0x10

abbrev Image := UInt64 × UInt64

def size24 (memory : ByteMemory) (address : UInt64) : UInt64 :=
  (memory address).toUInt64 + (memory (address + 1)).toUInt64 <<< 8 +
    (memory (address + 2)).toUInt64 <<< 16

def scanBody (round mask minimum : UInt64) (size : UInt64 → UInt64)
    (look : UInt64 → Exec (Option Image)) (last nextPtr : UInt64) : Exec (UInt64 ⊕ Image) :=
  let currentPtr := (nextPtr + round) &&& mask
  if currentPtr > last then .ok (.inr (0, 0))
  else if size currentPtr < minimum then .ok (.inr (0, 0))
  else
    let nextPtr := currentPtr + size currentPtr
    if nextPtr > last then .ok (.inr (0, 0))
    else do
      match ← look currentPtr with
      | some image => return .inr image
      | none => return .inl nextPtr

section

variable (memory : ByteMemory)

/-- `CommonSectionHeader` has the size first and the type behind it. -/
def sectionSize (header : UInt64) : UInt64 := size24 memory header

def sectionImage (sectionType : UInt8) (header : UInt64) : Option Image :=
  if memory (header + 3) ≠ sectionType then none
  else some (header + 4, sectionSize memory header - 4)

def getImageFromSections (fuel : Nat) (sectionsAddress sectionsLength : UInt64)
    (sectionType : UInt8) : Exec Image :=
  Loop.run (scanBody 3 0xfffffffc 4 (sectionSize memory)
    (fun header => .ok (sectionImage memory sectionType header))
    (sectionsAddress + sectionsLength)) fuel sectionsAddress

/-- `FfsFileHeader` has the type at offset 18 and the size at offset 20. -/
def ffsSize (header : UInt64) : UInt64 := size24 memory (header + 20)

def ffsType (header : UInt64) : UInt8 := memory (header + 18)

def fileImage (fileType sectionType : UInt8) (fuel : Nat) (header : UInt64) :
    Exec (Option Image) :=
  if ffsType memory header ≠ fileType then .ok none
  else do
    let (image, size) ←
      getImageFromSections memory fuel (header + 24) (ffsSize memory header - 24) sectionType
    if image ≠ 0 then return some (image, size) else return none

/-- `header_length` is at offset 48 of `FirmwareVolumeHeader`. -/
def headerLength (fvBaseAddress : UInt64) : UInt16 :=
  memory.readUInt16 (fvBaseAddress + 48)

def getImageFromFv (fuel : Nat) (fvBaseAddress fvLength : UInt64)
    (fvFileType sectionType : UInt8) : Exec Image :=
  if memory.readUInt32 (fvBaseAddress + 40) = fvhSignature then
    Loop.run (scanBody 7 0xfffffff8 (24 + 4) (ffsSize memory)
      (fileImage memory fvFileType sectionType fuel) (fvBaseAddress + fvLength)) fuel
      (fvBaseAddress + (headerLength memory fvBaseAddress).toUInt64)
  else .error .panicked

end

/-! ## Rounding -/

def alignUp (alignment address : Nat) : Nat := (address + (alignment - 1)) / alignment * alignment

/-- The next multiple of the alignment, as far as 32 bits go. -/
def wrapUp (alignment address : Nat) : Nat := alignUp alignment address % 2 ^ 32

theorem and_mask (value : Nat) {low : Nat} (few : low ≤ 32) :
    value &&& ((2 ^ (32 - low) - 1) <<< low) = value / 2 ^ low * 2 ^ low % 2 ^ 32 := by
  apply Nat.eq_of_testBit_eq
  intro index
  rw [← Nat.shiftRight_eq_div_pow, ← Nat.shiftLeft_eq]
  simp only [Nat.testBit_and, Nat.testBit_shiftLeft, Nat.testBit_two_pow_sub_one,
    Nat.testBit_mod_two_pow, Nat.testBit_shiftRight]
  by_cases behind : low ≤ index
  · have same : low + (index - low) = index := by omega
    have bound : index - low < 32 - low ↔ index < 32 := by omega
    simp [behind, same, bound, Bool.and_comm]
  · simp [behind]

theorem wrapUp_lt (alignment address : Nat) : wrapUp alignment address < 2 ^ 32 :=
  Nat.mod_lt _ (by decide)

theorem round_and_mask (low : Nat) {round mask : UInt64} (few : low ≤ 32)
    (rounds : round.toNat = 2 ^ low - 1) (masks : mask.toNat = (2 ^ (32 - low) - 1) <<< low)
    (address : UInt64) :
    (address + round) &&& mask = UInt64.ofNat (wrapUp (2 ^ low) address.toNat) := by
  have split : 2 ^ 64 = 2 ^ low * 2 ^ (64 - low) := by
    rw [← Nat.pow_add, Nat.add_sub_cancel' (by omega)]
  have carry : (address.toNat + (2 ^ low - 1)) % 2 ^ 64 / 2 ^ low * 2 ^ low % 2 ^ 32 =
      wrapUp (2 ^ low) address.toNat := by
    rw [split, Nat.mod_mul_right_div_self, ← Nat.mul_mod_mul_right,
      ← split.trans (Nat.mul_comm _ _), Nat.mod_mod_of_dvd _ (by decide)]
    rfl
  have bound := wrapUp_lt (2 ^ low) address.toNat
  have whole : wrapUp (2 ^ low) address.toNat % 2 ^ 64 = wrapUp (2 ^ low) address.toNat :=
    Nat.mod_eq_of_lt (by omega)
  apply UInt64.toNat_inj.mp
  rw [UInt64.toNat_and, UInt64.toNat_add, rounds, masks, and_mask _ few, carry,
    UInt64.toNat_ofNat', whole]

theorem size24_lt (memory : ByteMemory) (address : UInt64) :
    (size24 memory address).toNat < 2 ^ 24 := by
  have low := (memory address).toNat_lt
  have middle := (memory (address + 1)).toNat_lt
  have high := (memory (address + 2)).toNat_lt
  simp only [size24, UInt64.toNat_add, UInt64.toNat_shiftLeft, UInt8.toNat_toUInt64,
    Nat.shiftLeft_eq]
  change ((_ + _ * 2 ^ 8 % 2 ^ 64) % 2 ^ 64 + _ * 2 ^ 16 % 2 ^ 64) % 2 ^ 64 < _
  omega

/-! ## Scans -/

section Scan

/-- The scan stops at an address: there is no chunk that is large enough and fits. -/
def Breaks (minimum last : Nat) (size : UInt64 → UInt64) (address : Nat) : Prop :=
  last < address ∨ (size (UInt64.ofNat address)).toNat < minimum ∨
    last < address + (size (UInt64.ofNat address)).toNat

instance (minimum last : Nat) (size : UInt64 → UInt64) (address : Nat) :
    Decidable (Breaks minimum last size address) :=
  inferInstanceAs (Decidable (_ ∨ _ ∨ _))

/-- What a scan comes to from an address on. -/
inductive Scans (alignment minimum last : Nat) (size : UInt64 → UInt64)
    (Looks : Nat → Option Image → Prop) : Nat → Option Image → Prop
  | breaks {address : Nat} : Breaks minimum last size address →
      Scans alignment minimum last size Looks address none
  | found {address : Nat} {image : Image} : ¬ Breaks minimum last size address →
      Looks address (some image) → Scans alignment minimum last size Looks address (some image)
  | passes {address : Nat} {result : Option Image} : ¬ Breaks minimum last size address →
      Looks address none →
      Scans alignment minimum last size Looks
        (wrapUp alignment (address + (size (UInt64.ofNat address)).toNat)) result →
      Scans alignment minimum last size Looks address result

/-- The numbers of a scan below 4 GiB. -/
structure ScanFits (alignment least stop : Nat) (round mask minimum last : UInt64)
    (size : UInt64 → UInt64) : Prop where
  rounds : ∀ address : UInt64, address.toNat ≤ 2 ^ 32 →
    (address + round) &&& mask = UInt64.ofNat (wrapUp alignment address.toNat)
  small : ∀ address, (size address).toNat < 2 ^ 24
  minimum : minimum.toNat = least
  last : last.toNat = stop
  bounded : stop ≤ 2 ^ 32

variable {alignment least stop : Nat} {round mask minimum last : UInt64} {size : UInt64 → UInt64}

variable {address : Nat} {nextPtr : UInt64}

theorem scanBody_of_rounded (small : ∀ address, (size address).toNat < 2 ^ 24)
    (smallest : minimum.toNat = least) (look : UInt64 → Exec (Option Image))
    (rounded : (nextPtr + round) &&& mask = UInt64.ofNat address)
    (bound : address < 2 ^ 32) :
    scanBody round mask minimum size look last nextPtr =
      if Breaks least last.toNat size address then .ok (.inr (0, 0))
      else do
        match ← look (UInt64.ofNat address) with
        | some image => return .inr image
        | none => return .inl (UInt64.ofNat (address + (size (UInt64.ofNat address)).toNat)) := by
  have small := small (UInt64.ofNat address)
  have current : (UInt64.ofNat address).toNat = address := by
    rw [UInt64.toNat_ofNat', Nat.mod_eq_of_lt (by omega)]
  have next : UInt64.ofNat address + size (UInt64.ofNat address) =
      UInt64.ofNat (address + (size (UInt64.ofNat address)).toNat) := by
    rw [UInt64.ofNat_add, UInt64.ofNat_toNat]
  have nextNat : (UInt64.ofNat (address + (size (UInt64.ofNat address)).toNat)).toNat =
      address + (size (UInt64.ofNat address)).toNat := by
    rw [UInt64.toNat_ofNat', Nat.mod_eq_of_lt (by omega)]
  simp only [scanBody, rounded, next, gt_iff_lt, UInt64.lt_iff_toNat_lt, current, nextNat, smallest]
  by_cases stops : Breaks least last.toNat size address
  · rw [if_pos stops]
    rcases stops with behind | short | long
    · rw [if_pos behind]
    · rw [if_pos short, ite_self]
    · rw [if_pos long, ite_self, ite_self]
  · rw [if_neg stops]
    simp only [Breaks, not_or] at stops
    rw [if_neg stops.1, if_neg stops.2.1, if_neg stops.2.2]

theorem scanBody_eq (fits : ScanFits alignment least stop round mask minimum last size)
    (look : UInt64 → Exec (Option Image)) (inside : nextPtr.toNat ≤ 2 ^ 32)
    (rounded : wrapUp alignment nextPtr.toNat = address) :
    scanBody round mask minimum size look last nextPtr =
      if Breaks least stop size address then .ok (.inr (0, 0))
      else do
        match ← look (UInt64.ofNat address) with
        | some image => return .inr image
        | none => return .inl (UInt64.ofNat (address + (size (UInt64.ofNat address)).toNat)) := by
  have bound : address < 2 ^ 32 := by
    rw [← rounded]
    exact wrapUp_lt alignment nextPtr.toNat
  have same : (nextPtr + round) &&& mask = UInt64.ofNat address := by
    rw [fits.rounds nextPtr inside, rounded]
  rw [scanBody_of_rounded fits.small fits.minimum look same bound, fits.last]

theorem toNat_next (fits : ScanFits alignment least stop round mask minimum last size)
    (goes : ¬ Breaks least stop size address) :
    (UInt64.ofNat (address + (size (UInt64.ofNat address)).toNat)).toNat =
        address + (size (UInt64.ofNat address)).toNat ∧
      address + (size (UInt64.ofNat address)).toNat ≤ 2 ^ 32 := by
  have bounded := fits.bounded
  simp only [Breaks, not_or] at goes
  rw [UInt64.toNat_ofNat', Nat.mod_eq_of_lt (by omega)]
  exact ⟨rfl, by omega⟩

variable {Looks : Nat → Option Image → Prop}

theorem Scans.exists_looks {image : Image}
    (scans : Scans alignment least stop size Looks address (some image)) :
    ∃ chunk, ¬ Breaks least stop size chunk ∧ Looks chunk (some image) := by
  generalize found : some image = result at scans
  induction scans with
  | breaks => cases found
  | found goes looked => exact ⟨_, goes, found ▸ looked⟩
  | passes _ _ _ induction => exact induction found

variable (fits : ScanFits alignment least stop round mask minimum last size)
  (look : Nat → UInt64 → Exec (Option Image))

include fits look

theorem Scans.settles (looks : ∀ address result, ¬ Breaks least stop size address →
      Looks address result → SettlesTo (fun fuel => look fuel (UInt64.ofNat address)) (.ok result))
    {result : Option Image} (scans : Scans alignment least stop size Looks address result)
    (inside : nextPtr.toNat ≤ 2 ^ 32) (rounded : wrapUp alignment nextPtr.toNat = address) :
    Loop.SettlesTo (fun inner => scanBody round mask minimum size (look inner) last) nextPtr
      (.ok (result.getD (0, 0))) := by
  induction scans generalizing nextPtr with
  | breaks stops =>
    apply Loop.settlesTo_stop
    refine ⟨0, fun inner _ => (scanBody_eq fits (look inner) inside rounded).trans ?_⟩
    rw [if_pos stops]
    rfl
  | found goes looked =>
    rcases looks _ _ goes looked with ⟨enough, same⟩
    apply Loop.settlesTo_stop
    refine ⟨enough, fun inner many => (scanBody_eq fits (look inner) inside rounded).trans ?_⟩
    have looked := same inner many
    dsimp only at looked
    rw [if_neg goes, looked]
    rfl
  | passes goes looked _ induction =>
    rcases looks _ _ goes looked with ⟨enough, same⟩
    have next := toNat_next fits goes
    apply Loop.settlesTo_next _ (induction (by rw [next.1]; exact next.2) (by rw [next.1]))
    refine ⟨enough, fun inner many => (scanBody_eq fits (look inner) inside rounded).trans ?_⟩
    have looked := same inner many
    dsimp only at looked
    rw [if_neg goes, looked]
    rfl

theorem scans_of_run (inner : Nat) (looks : ∀ address result, ¬ Breaks least stop size address →
      look inner (UInt64.ofNat address) = .ok result → Looks address result) {fuel : Nat}
    {image : Image} (inside : nextPtr.toNat ≤ 2 ^ 32)
    (returned : Loop.run (scanBody round mask minimum size (look inner) last) fuel nextPtr =
      .ok image) :
    ∃ result, Scans alignment least stop size Looks
      (wrapUp alignment nextPtr.toNat) result ∧ image = result.getD (0, 0) := by
  induction fuel generalizing nextPtr with
  | zero => cases returned
  | succ fuel induction =>
    rw [Loop.run, scanBody_eq fits (look inner) inside rfl] at returned
    by_cases stops : Breaks least stop size (wrapUp alignment nextPtr.toNat)
    · rw [if_pos stops] at returned
      cases returned
      exact ⟨none, .breaks stops, rfl⟩
    · rw [if_neg stops] at returned
      cases looked : look inner (UInt64.ofNat (wrapUp alignment nextPtr.toNat)) with
      | error fault =>
        rw [looked] at returned
        cases returned
      | ok result =>
        rw [looked] at returned
        have here := looks _ result stops looked
        cases result with
        | some found =>
          cases returned
          exact ⟨some image, .found stops here, rfl⟩
        | none =>
          have next := toNat_next fits stops
          rcases induction (by rw [next.1]; exact next.2) returned with ⟨result, scans, same⟩
          rw [next.1] at scans
          exact ⟨result, .passes stops here scans, same⟩

end Scan

/-! ## The two scans -/

abbrev SectionScan (memory : ByteMemory) (sectionType : UInt8) (last : Nat) :
    Nat → Option Image → Prop :=
  Scans 4 4 last (sectionSize memory)
    fun address result => sectionImage memory sectionType (UInt64.ofNat address) = result

def FileLooks (memory : ByteMemory) (fileType sectionType : UInt8) (address : Nat)
    (result : Option Image) : Prop :=
  if ffsType memory (UInt64.ofNat address) ≠ fileType then result = none
  else SectionScan memory sectionType (address + (ffsSize memory (UInt64.ofNat address)).toNat)
    (wrapUp 4 (address + 24)) result

abbrev FileScan (memory : ByteMemory) (fileType sectionType : UInt8) (last : Nat) :
    Nat → Option Image → Prop :=
  Scans 8 28 last (ffsSize memory) (FileLooks memory fileType sectionType)

variable {memory : ByteMemory} {fileType sectionType : UInt8}

theorem sections_fit (memory : ByteMemory) {last : UInt64} {stop : Nat} (ends : last.toNat = stop)
    (bounded : stop ≤ 2 ^ 32) : ScanFits 4 4 stop 3 0xfffffffc 4 last (sectionSize memory) where
  rounds address _ := round_and_mask 2 (by decide) rfl rfl address
  small address := size24_lt memory address
  minimum := rfl
  last := ends
  bounded := bounded

theorem files_fit (memory : ByteMemory) {last : UInt64} {stop : Nat} (ends : last.toNat = stop)
    (bounded : stop ≤ 2 ^ 32) :
    ScanFits 8 28 stop 7 0xfffffff8 (24 + 4) last (ffsSize memory) where
  rounds address _ := round_and_mask 3 (by decide) rfl rfl address
  small address := size24_lt memory (address + 20)
  minimum := rfl
  last := ends
  bounded := bounded

variable {address : Nat} {length : UInt64} {result : Option Image}

theorem SectionScan.address_ne_zero {last : Nat} (bounded : last ≤ 2 ^ 32) {image : Image}
    (scans : SectionScan memory sectionType last address (some image)) : image.1 ≠ 0 := by
  rcases scans.exists_looks with ⟨header, goes, looked⟩
  simp only [Breaks, not_or] at goes
  rw [sectionImage] at looked
  split at looked
  · cases looked
  · cases looked
    intro zero
    have number := congrArg UInt64.toNat zero
    rw [UInt64.toNat_add, UInt64.toNat_ofNat'] at number
    change (header % 2 ^ 64 + 4) % 2 ^ 64 = 0 at number
    omega

theorem sectionScan_of_run {start : UInt64} {stop fuel : Nat} {image : Image}
    (ends : (start + length).toNat = stop) (bounded : stop ≤ 2 ^ 32)
    (inside : start.toNat ≤ 2 ^ 32)
    (returned : getImageFromSections memory fuel start length sectionType = .ok image) :
    ∃ result, SectionScan memory sectionType stop (wrapUp 4 start.toNat) result ∧
      image = result.getD (0, 0) := by
  apply scans_of_run (sections_fit memory ends bounded)
    (fun _ header => .ok (sectionImage memory sectionType header)) 0 _ inside returned
  intro address result _ looked
  exact Except.ok.inj looked

theorem SectionScan.settles {start : UInt64} {stop : Nat}
    (ends : (start + length).toNat = stop) (bounded : stop ≤ 2 ^ 32)
    (inside : start.toNat ≤ 2 ^ 32)
    (scans : SectionScan memory sectionType stop (wrapUp 4 start.toNat) result) :
    SettlesTo (fun fuel => getImageFromSections memory fuel start length sectionType)
      (.ok (result.getD (0, 0))) := by
  have looks : ∀ address result, ¬ Breaks 4 stop (sectionSize memory) address →
      sectionImage memory sectionType (UInt64.ofNat address) = result →
      SettlesTo (fun _ => .ok (sectionImage memory sectionType (UInt64.ofNat address)))
        (.ok result) := by
    intro address result _ looked
    exact ⟨0, fun _ _ => congrArg Except.ok looked⟩
  rcases Scans.settles (sections_fit memory ends bounded)
    (fun _ header => .ok (sectionImage memory sectionType header)) looks scans inside rfl with
    ⟨enough, same⟩
  exact ⟨enough, fun fuel many => same fuel fuel many many⟩

section

variable {last : Nat} (bounded : last ≤ 2 ^ 32) (goes : ¬ Breaks 28 last (ffsSize memory) address)

include bounded goes

theorem sections_of_file :
    (UInt64.ofNat address + 24).toNat = address + 24 ∧
      (UInt64.ofNat address + 24 + (ffsSize memory (UInt64.ofNat address) - 24)).toNat =
        address + (ffsSize memory (UInt64.ofNat address)).toNat ∧
      address + (ffsSize memory (UInt64.ofNat address)).toNat ≤ 2 ^ 32 ∧ address + 24 ≤ 2 ^ 32 := by
  simp only [Breaks, not_or] at goes
  have start : UInt64.ofNat address + 24 = UInt64.ofNat (address + 24) := by
    rw [UInt64.ofNat_add]
    rfl
  have stop : UInt64.ofNat address + 24 + (ffsSize memory (UInt64.ofNat address) - 24) =
      UInt64.ofNat (address + (ffsSize memory (UInt64.ofNat address)).toNat) := by
    rw [UInt64.ofNat_add, UInt64.ofNat_toNat, UInt64.add_assoc, UInt64.add_comm 24,
      UInt64.sub_add_cancel]
  rw [stop, start, UInt64.toNat_ofNat', UInt64.toNat_ofNat', Nat.mod_eq_of_lt (by omega),
    Nat.mod_eq_of_lt (by omega)]
  exact ⟨rfl, rfl, by omega, by omega⟩

theorem fileLooks_of_run {fuel : Nat}
    (returned : fileImage memory fileType sectionType fuel (UInt64.ofNat address) = .ok result) :
    FileLooks memory fileType sectionType address result := by
  rcases sections_of_file bounded goes with ⟨start, stop, stopInside, startInside⟩
  rw [fileImage] at returned
  rw [FileLooks]
  by_cases other : ffsType memory (UInt64.ofNat address) ≠ fileType
  · rw [if_pos other] at returned ⊢
    exact (Except.ok.inj returned).symm
  · rw [if_neg other] at returned ⊢
    cases searched : getImageFromSections memory fuel (UInt64.ofNat address + 24)
        (ffsSize memory (UInt64.ofNat address) - 24) sectionType with
    | error fault =>
      rw [searched] at returned
      cases returned
    | ok image =>
      rw [searched] at returned
      rcases sectionScan_of_run stop stopInside (start.trans_le startInside) searched with
        ⟨found, scans, rfl⟩
      rw [start] at scans
      cases found with
      | none =>
        cases returned
        exact scans
      | some image =>
        have real := SectionScan.address_ne_zero stopInside scans
        simp only [Option.getD_some, Exec.ok_bind, ne_eq, real, not_false_eq_true, if_true]
          at returned
        cases returned
        exact scans

theorem FileLooks.settles (looks : FileLooks memory fileType sectionType address result) :
    SettlesTo (fun fuel => fileImage memory fileType sectionType fuel (UInt64.ofNat address))
      (.ok result) := by
  rcases sections_of_file bounded goes with ⟨start, stop, stopInside, startInside⟩
  rw [FileLooks] at looks
  by_cases other : ffsType memory (UInt64.ofNat address) ≠ fileType
  · rw [if_pos other] at looks
    refine ⟨0, fun fuel _ => ?_⟩
    rw [looks]
    exact if_pos other
  · rw [if_neg other] at looks
    rw [← start] at looks
    rcases SectionScan.settles stop stopInside (start.trans_le startInside) looks with
      ⟨enough, same⟩
    refine ⟨enough, fun fuel many => ?_⟩
    have searched := same fuel many
    dsimp only at searched
    simp only [fileImage, if_neg other, searched, Exec.ok_bind]
    cases result with
    | none => rfl
    | some image =>
      have real := SectionScan.address_ne_zero stopInside looks
      rw [if_pos (by exact real)]
      rfl

end

theorem getImageFromFv_settles_iff (fileType sectionType : UInt8) {base : UInt64}
    (signed : memory.readUInt32 (base + 40) = fvhSignature)
    (below : base.toNat + length.toNat ≤ 2 ^ 32)
    (inside : (headerLength memory base).toNat ≤ length.toNat) (image : Image) :
    SettlesTo (fun fuel => getImageFromFv memory fuel base length fileType sectionType)
        (.ok image) ↔
      ∃ result, FileScan memory fileType sectionType (base.toNat + length.toNat)
        (wrapUp 8 (base.toNat + (headerLength memory base).toNat)) result ∧
        image = result.getD (0, 0) := by
  have last : (base + length).toNat = base.toNat + length.toNat := by
    rw [UInt64.toNat_add, Nat.mod_eq_of_lt (by omega)]
  have first : (base + (headerLength memory base).toUInt64).toNat =
      base.toNat + (headerLength memory base).toNat := by
    rw [UInt64.toNat_add, UInt16.toNat_toUInt64, Nat.mod_eq_of_lt (by omega)]
  have fits := files_fit memory last below
  have firstInside : (base + (headerLength memory base).toUInt64).toNat ≤ 2 ^ 32 := by omega
  constructor
  · rintro ⟨enough, same⟩
    have returned := same enough (Nat.le_refl enough)
    simp only [getImageFromFv, signed, if_true] at returned
    rcases scans_of_run fits (fileImage memory fileType sectionType) enough
      (fun address result goes looked => fileLooks_of_run below goes looked) firstInside returned
      with ⟨result, scans, same⟩
    rw [first] at scans
    exact ⟨result, scans, same⟩
  · rintro ⟨result, scans, rfl⟩
    rcases Scans.settles fits (fileImage memory fileType sectionType)
      (fun address result goes looked => FileLooks.settles below goes looked) scans firstInside
      (congrArg (wrapUp 8) first) with ⟨enough, same⟩
    refine ⟨enough, fun fuel many => ?_⟩
    simp only [getImageFromFv, signed, if_true]
    exact same fuel fuel many many

end HypervisorFirmware.Pi
