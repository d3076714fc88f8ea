import HypervisorFirmware.Pci.BaseAddresses

/-! # The walk over the capabilities

The pointers of the capability list, the places of the capabilities and their BAR
numbers come from the device. The walk checks none of them, except that a pointer of
zero or 0xff ends it. -/

namespace HypervisorFirmware.Pci

open VirtioPciTransport (walkBody vendorCapability capabilityRegion WalkState)

variable {config : ConfigSpace}

/-! ## Lists of capabilities -/

abbrev IsCapability (pointer : UInt8) : Prop := pointer < 0xff ∧ 0 < pointer

def fieldOffsets (config : ConfigSpace) (capability : UInt8) : List UInt8 :=
  [capability, capability + 1] ++
    if config.byte capability = 0x09 then
      [capability + 3, capability + 4, capability + 8, capability + 12] ++
        if config.byte (capability + 3) = 2 then [capability + 16] else []
    else []

def FieldsBehind (config : ConfigSpace) (capability : UInt8) : Prop :=
  ∀ offset ∈ fieldOffsets config capability, capability ≤ offset

def UnsupportedBar (config : ConfigSpace) : Prop :=
  ∃ number, barStart config number < 5 ∧ barTypeOf (config.bar (barStart config number)) = none

/-- `init` ends: it panics at a kind of BAR that is not supported, which is before it
comes to the capabilities, or it returns and has read the fields of every capability
behind its start. -/
def WalkEnds (config : ConfigSpace) (transport : VirtioPciTransport) : Prop :=
  (UnsupportedBar config ∧ ∀ fuel ≥ 6, transport.device.init fuel config = .error .panicked) ∨
    ∃ fuel device result, transport.device.init fuel config = .ok device ∧
      transport.init fuel config = .ok result ∧
      (result.1 = .ok () → ∀ state,
        Loop.Visits (walkBody config) ⟨config.byte 0x34, { transport with device }⟩ state →
          IsCapability state.capNext → FieldsBehind config state.capNext)

/-- A list of capabilities from a pointer on. -/
inductive CapabilityList (config : ConfigSpace) : UInt8 → List UInt8 → Prop
  | nil {pointer : UInt8} : ¬ IsCapability pointer → CapabilityList config pointer []
  | cons {pointer : UInt8} {rest : List UInt8} : IsCapability pointer →
      CapabilityList config (config.byte (pointer + 1)) rest →
      CapabilityList config pointer (pointer :: rest)

def NamesBar (config : ConfigSpace) (capability : UInt8) : Prop :=
  config.byte (capability + 3) ∈ [1, 2, 4] → config.byte (capability + 4) < 6

/-- A vendor specific capability is aligned, ends inside of configuration space and has
the number of a BAR. -/
structure WellPlaced (config : ConfigSpace) (capability : UInt8) : Prop where
  aligned : capability % 4 = 0
  inside : capability ≤ 0xf0
  notifyInside : config.byte (capability + 3) = 2 → capability ≤ 0xec
  namesBar : NamesBar config capability

/-- The list of capabilities ends, and its vendor specific ones are well placed. -/
def ListSound (config : ConfigSpace) (pointer : UInt8) : Prop :=
  ∃ capabilities, CapabilityList config pointer capabilities ∧
    ∀ capability ∈ capabilities, config.byte capability = 0x09 → WellPlaced config capability

abbrev HasCapabilities (config : ConfigSpace) : Prop :=
  config.halfword 0x06 &&& ((1 : UInt16) <<< 4) ≠ 0

/-! ## One capability -/

theorem aligned_field (capability : UInt8) : ((capability + 8) % 4 = 0 ↔ capability % 4 = 0) ∧
      ((capability + 12) % 4 = 0 ↔ capability % 4 = 0) ∧
      ((capability + 16) % 4 = 0 ↔ capability % 4 = 0) := by
  have every : ∀ bits : BitVec 8, ((bits + 8) % 4 = 0 ↔ bits % 4 = 0) ∧
      ((bits + 12) % 4 = 0 ↔ bits % 4 = 0) ∧ ((bits + 16) % 4 = 0 ↔ bits % 4 = 0) := by decide
  simp only [← UInt8.toBitVec_inj]
  exact every capability.toBitVec

variable {capability pointer : UInt8}

theorem behind_iff (aligned : capability % 4 = 0) :
    ((capability ≤ capability + 3 ∧ capability ≤ capability + 4 ∧ capability ≤ capability + 8 ∧
      capability ≤ capability + 12) ↔ capability ≤ 0xf0) ∧
      (capability ≤ capability + 16 ↔ capability ≤ 0xec) := by
  have every : ∀ bits : BitVec 8, bits % 4 = 0 →
      ((bits ≤ bits + 3 ∧ bits ≤ bits + 4 ∧ bits ≤ bits + 8 ∧ bits ≤ bits + 12) ↔ bits ≤ 0xf0) ∧
        (bits ≤ bits + 16 ↔ bits ≤ 0xec) := by decide
  exact every capability.toBitVec (UInt8.toBitVec_inj.mpr aligned)

theorem le_next (isCapability : IsCapability capability) : capability ≤ capability + 1 := by
  have every : ∀ bits : BitVec 8, bits < 0xff → bits ≤ bits + 1 := by decide
  exact every capability.toBitVec isCapability.1

theorem fieldsBehind_other (isCapability : IsCapability capability)
    (other : config.byte capability ≠ 0x09) : FieldsBehind config capability := by
  simp [FieldsBehind, fieldOffsets, other, le_next isCapability]

theorem wellPlaced_iff (isCapability : IsCapability capability)
    (vendor : config.byte capability = 0x09) :
    WellPlaced config capability ↔
      (capability % 4 = 0 ∧ NamesBar config capability) ∧ FieldsBehind config capability := by
  have fields : FieldsBehind config capability ↔
      (capability ≤ capability + 3 ∧ capability ≤ capability + 4 ∧ capability ≤ capability + 8 ∧
        capability ≤ capability + 12) ∧
      (config.byte (capability + 3) = 2 → capability ≤ capability + 16) := by
    by_cases notify : config.byte (capability + 3) = 2
    · simp [FieldsBehind, fieldOffsets, vendor, notify, le_next isCapability, and_assoc]
    · simp [FieldsBehind, fieldOffsets, vendor, notify, le_next isCapability]
  rw [fields]
  constructor
  · rintro ⟨aligned, inside, notifyInside, namesBar⟩
    rw [(behind_iff aligned).1, (behind_iff aligned).2]
    exact ⟨⟨aligned, namesBar⟩, inside, notifyInside⟩
  · rintro ⟨⟨aligned, namesBar⟩, behind⟩
    rw [(behind_iff aligned).1, (behind_iff aligned).2] at behind
    exact ⟨aligned, behind.1, behind.2, namesBar⟩

theorem capabilityRegion_of_lt (device : PciDevice) {bar : UInt8} (inside : bar < 6)
    (offset length : UInt32) :
    ∃ region, capabilityRegion device bar offset length = .ok region := by
  rw [capabilityRegion, Vector.getElem?_eq_getElem (UInt8.lt_iff_toNat_lt.mp inside)]
  exact ⟨_, rfl⟩

theorem capabilityRegion_of_not_lt (device : PciDevice) {bar : UInt8} (outside : ¬ bar < 6)
    (offset length : UInt32) : capabilityRegion device bar offset length = .error .panicked := by
  have beyond : 6 ≤ bar.toNat :=
    Nat.le_of_not_lt fun less => outside (UInt8.lt_iff_toNat_lt.mpr less)
  rw [capabilityRegion, Vector.getElem?_eq_none beyond]

theorem vendorCapability_unaligned (transport : VirtioPciTransport)
    (unaligned : capability % 4 ≠ 0) :
    vendorCapability config transport capability = .error .panicked := by
  have misread := pciConfigReadU32_unaligned config
    (fun aligned => unaligned ((aligned_field capability).1.mp aligned))
  simp only [vendorCapability, pciConfigReadU8_eq, Exec.ok_bind, misread, Exec.error_bind]

theorem vendorCapability_returns_iff (transport : VirtioPciTransport) (capability : UInt8) :
    (∃ result, vendorCapability config transport capability = .ok result) ↔
      capability % 4 = 0 ∧ NamesBar config capability := by
  by_cases aligned : capability % 4 = 0
  · have fields := aligned_field capability
    simp only [vendorCapability, pciConfigReadU8_eq, Exec.ok_bind,
      pciConfigReadU32_aligned config (fields.1.mpr aligned),
      pciConfigReadU32_aligned config (fields.2.1.mpr aligned),
      pciConfigReadU32_aligned config (fields.2.2.mpr aligned), NamesBar, aligned, true_and]
    by_cases inside : config.byte (capability + 4) < 6
    · obtain ⟨region, described⟩ := capabilityRegion_of_lt transport.device inside
        (config.register (capability + 8)) (config.register (capability + 12))
      simp only [described, Exec.ok_bind, inside, implies_true, iff_true]
      split_ifs
      all_goals exact ⟨_, rfl⟩
    · simp only [capabilityRegion_of_not_lt transport.device inside, Exec.error_bind, inside]
      split_ifs <;> simp_all
  · simp [vendorCapability_unaligned transport aligned, aligned]

/-! ## The walk -/

theorem walkBody_end (config : ConfigSpace) (ends : ¬ IsCapability pointer)
    (transport : VirtioPciTransport) :
    walkBody config ⟨pointer, transport⟩ = .ok (.inr transport) :=
  if_neg ends

theorem walkBody_capability (config : ConfigSpace) (isCapability : IsCapability pointer)
    (transport : VirtioPciTransport) :
    (∃ next, walkBody config ⟨pointer, transport⟩ =
        .ok (.inl ⟨config.byte (pointer + 1), next⟩) ∧
      (config.byte pointer = 0x09 → pointer % 4 = 0 ∧ NamesBar config pointer)) ∨
    ∃ fault, walkBody config ⟨pointer, transport⟩ = .error fault ∧
      ¬ (config.byte pointer = 0x09 → pointer % 4 = 0 ∧ NamesBar config pointer) := by
  rw [walkBody, if_pos isCapability, pciConfigReadU8_eq, Exec.ok_bind]
  by_cases vendor : config.byte pointer = 0x09
  · rw [if_pos vendor, ← vendorCapability_returns_iff transport]
    cases read : vendorCapability config transport pointer with
    | error fault => exact Or.inr ⟨fault, rfl, by simp [vendor]⟩
    | ok next =>
      refine Or.inl ⟨next, ?_, fun _ => ⟨next, rfl⟩⟩
      simp
  · refine Or.inl ⟨transport, ?_, fun found => absurd found vendor⟩
    rw [if_neg vendor]
    simp

def Walks (config : ConfigSpace) (start : WalkState) : Prop :=
  ∃ fuel result, Loop.run (walkBody config) fuel start = .ok result ∧
    ∀ state, Loop.Visits (walkBody config) start state → IsCapability state.capNext →
      FieldsBehind config state.capNext

theorem walks_of_list {capabilities : List UInt8}
    (list : CapabilityList config pointer capabilities)
    (placed : ∀ capability ∈ capabilities, config.byte capability = 0x09 →
      WellPlaced config capability) (transport : VirtioPciTransport) :
    Walks config ⟨pointer, transport⟩ := by
  induction list generalizing transport with
  | nil ends =>
    have last := walkBody_end config ends transport
    refine ⟨1, transport, by rw [Loop.run, last], ?_⟩
    intro state visits isCapability
    rcases visits.cases_start with rfl | ⟨next, once, _⟩
    · exact absurd isCapability ends
    · rw [last] at once
      cases once
  | @cons pointer rest isCapability _ induction =>
    have here := placed pointer List.mem_cons_self
    rcases walkBody_capability config isCapability transport with
      ⟨next, once, _⟩ | ⟨_, _, refused⟩
    · rcases induction
        (fun capability member => placed capability (List.mem_cons_of_mem _ member))
        next with ⟨fuel, result, returned, behind⟩
      refine ⟨fuel + 1, result, by rw [Loop.run, once]; exact returned, ?_⟩
      intro state visits reached
      rcases visits.cases_start with rfl | ⟨other, stepped, visits⟩
      · by_cases vendor : config.byte pointer = 0x09
        · exact ((wellPlaced_iff isCapability vendor).mp (here vendor)).2
        · exact fieldsBehind_other isCapability vendor
      · rw [once, Except.ok.injEq, Sum.inl.injEq] at stepped
        exact behind state (stepped ▸ visits) reached
    · exact absurd (fun vendor => ((wellPlaced_iff isCapability vendor).mp (here vendor)).1) refused

theorem listSound_of_walks {fuel : Nat} {transport result : VirtioPciTransport}
    (returned : Loop.run (walkBody config) fuel ⟨pointer, transport⟩ = .ok result)
    (behind : ∀ state, Loop.Visits (walkBody config) ⟨pointer, transport⟩ state →
      IsCapability state.capNext → FieldsBehind config state.capNext) :
    ListSound config pointer := by
  induction fuel generalizing pointer transport with
  | zero => cases returned
  | succ fuel induction =>
    by_cases isCapability : IsCapability pointer
    · rcases walkBody_capability config isCapability transport with
        ⟨next, once, readable⟩ | ⟨fault, failed, _⟩
      · rw [Loop.run, once] at returned
        rcases induction returned (fun state visits => behind state (visits.after once)) with
          ⟨rest, list, placed⟩
        refine ⟨pointer :: rest, .cons isCapability list, ?_⟩
        intro capability member vendor
        rcases List.mem_cons.mp member with rfl | member
        · exact (wellPlaced_iff isCapability vendor).mpr
            ⟨readable vendor, behind _ .start isCapability⟩
        · exact placed capability member vendor
      · rw [Loop.run, failed] at returned
        cases returned
    · exact ⟨[], .nil isCapability, fun capability member => absurd member List.not_mem_nil⟩

/-! ## The whole of `init` -/

theorem VirtioPciTransport.init_eq (fuel : Nat) (config : ConfigSpace)
    (transport : VirtioPciTransport) {device : PciDevice}
    (decoded : transport.device.init fuel config = .ok device) :
    transport.init fuel config =
      if HasCapabilities config then
        (Loop.run (walkBody config) fuel ⟨config.byte 0x34, { transport with device }⟩).map
          fun walked => (.ok (), walked)
      else .ok (.error .virtioUnsupportedDevice, { transport with device }) := by
  rw [VirtioPciTransport.init, decoded, Exec.ok_bind, pciConfigReadU16_even config rfl]
  simp only [Exec.ok_bind, pciConfigReadU8_eq, HasCapabilities, ne_eq, ite_not]
  rfl

theorem init_panics_of_unsupported (unsupported : UnsupportedBar config) (device : PciDevice)
    {fuel : Nat} (enough : 6 ≤ fuel) : device.init fuel config = .error .panicked := by
  have outcome := PciDevice.init_outcome config device enough
  cases returned : device.init fuel config with
  | error fault =>
    rw [returned] at outcome
    rw [outcome.1]
  | ok decoded =>
    rw [returned] at outcome
    rcases unsupported with ⟨number, before, kind⟩
    exact absurd kind (outcome.1 number before)

theorem init_returns_of_supported (supported : ¬ UnsupportedBar config) (device : PciDevice) :
    ∃ decoded, device.init 6 config = .ok decoded := by
  have outcome := PciDevice.init_outcome config device (Nat.le_refl 6)
  cases returned : device.init 6 config with
  | error fault =>
    rw [returned] at outcome
    exact absurd outcome.2 supported
  | ok decoded => exact ⟨decoded, rfl⟩

/-- The walk over the capabilities can be trusted: there is none, or the list ends and
what is in it is well placed. -/
def WalkSound (config : ConfigSpace) : Prop :=
  UnsupportedBar config ∨ ¬ HasCapabilities config ∨ ListSound config (config.byte 0x34)

theorem walkEnds_iff_walkSound (config : ConfigSpace) (transport : VirtioPciTransport) :
    WalkEnds config transport ↔ WalkSound config := by
  constructor
  · rintro (⟨unsupported, _⟩ | ⟨fuel, device, result, decoded, returned, behind⟩)
    · exact Or.inl unsupported
    · right
      by_cases has : HasCapabilities config
      · rw [transport.init_eq fuel config decoded, if_pos has] at returned
        cases walked : Loop.run (walkBody config) fuel
            ⟨config.byte 0x34, { transport with device }⟩ with
        | error fault =>
          rw [walked] at returned
          cases returned
        | ok last =>
          rw [walked] at returned
          cases returned
          exact Or.inr (listSound_of_walks walked (behind rfl))
      · exact Or.inl has
  · intro sound
    by_cases unsupported : UnsupportedBar config
    · exact Or.inl ⟨unsupported, fun fuel enough =>
        init_panics_of_unsupported unsupported transport.device enough⟩
    · right
      rcases init_returns_of_supported unsupported transport.device with ⟨device, decoded⟩
      by_cases has : HasCapabilities config
      · have listSound : ListSound config (config.byte 0x34) := by
          rcases sound with unsupportedBar | none | listSound
          · exact absurd unsupportedBar unsupported
          · exact absurd has none
          · exact listSound
        rcases listSound with ⟨capabilities, list, placed⟩
        rcases walks_of_list list placed { transport with device } with
          ⟨fuel, walked, returned, behind⟩
        have decodedLater := PciDevice.init_mono (Nat.le_max_left 6 fuel) decoded
        refine ⟨max 6 fuel, device, (.ok (), walked), decodedLater, ?_, fun _ => behind⟩
        rw [transport.init_eq _ config decodedLater, if_pos has,
          Loop.run_mono (Nat.le_max_right 6 fuel) returned]
        rfl
      · have refused := (transport.init_eq 6 config decoded).trans (if_neg has)
        refine ⟨6, device, _, decoded, refused, ?_⟩
        intro walked
        cases walked

def ownSuccessor : ConfigSpace := fun index =>
  if index.val = 1 then 0x00100000
  else if index.val = 13 then 0x40
  else if index.val = 16 then 0x4005
  else 0

theorem ownSuccessor_walk (transport : VirtioPciTransport) (fuel : Nat) :
    Loop.run (walkBody ownSuccessor) fuel ⟨0x40, transport⟩ = .error .diverged := by
  induction fuel with
  | zero => rfl
  | succ fuel induction =>
    rw [Loop.run]
    exact induction

theorem not_walkEnds_own_successor : ¬ WalkEnds ownSuccessor {} := by
  have supported : ∀ register < 5, barTypeOf (ownSuccessor.bar register) ≠ none := by decide
  have first : ownSuccessor.byte 0x34 = 0x40 := rfl
  rintro (⟨⟨number, before, kind⟩, _⟩ | ⟨fuel, device, result, decoded, returned, _⟩)
  · exact supported _ before kind
  · rw [VirtioPciTransport.init_eq fuel ownSuccessor {} decoded, if_pos (by decide), first,
      ownSuccessor_walk] at returned
    cases returned

end HypervisorFirmware.Pci
