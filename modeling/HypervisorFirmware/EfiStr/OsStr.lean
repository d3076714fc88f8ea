import Mathlib.Data.List.TakeWhile
import HypervisorFirmware.Foundation.Execution

/-! # Null-terminated strings

`os_str.rs` of the `efi-str` crate. The search for the null unit at the end of a string
looks at the low bytes only, so that it also stops at units such as U+0100. -/

namespace HypervisorFirmware.EfiStr.OsStr

/-! ## The source -/

def char16WithNullLenBody (s : List UInt16) (len : Nat) : Exec (Nat ⊕ Nat) :=
  match s[len]? with
  | none => .error .undefined
  | some v => if v &&& 0xff = 0 then .ok (.inr len) else .ok (.inl (len + 1))

def char16WithNullLen (s : List UInt16) : Exec Nat :=
  Loop.run (char16WithNullLenBody s) (s.length + 1) 0

def fromU16SliceWithNul (s : List UInt16) : Exec (List UInt16) := do
  let len ← char16WithNullLen s
  if len ≤ s.length then return s.take len else .error .panicked

def fromRawParts (s : List UInt16) (len : Nat) : Exec (List UInt16) :=
  if len ≤ s.length then .ok (s.take len) else .error .undefined

def fromChar16WithNul (s : List UInt16) : Exec (List UInt16) := do
  fromRawParts s (← char16WithNullLen s)

def fromChar16WithNulMut (s : List UInt16) : Exec (List UInt16) := do
  fromRawParts s (← char16WithNullLen s)

def compareFrom (units : List UInt16) : (chars : List Char) → (i : Nat) → Exec Bool
  | [], _ => .ok true
  | c :: rest, i =>
    match units[i]? with
    | none => .error .panicked
    | some unit =>
      if c.val ≠ unit.toUInt32 then .ok false else compareFrom units rest (i + 1)

def compare (units : List UInt16) (chars : List Char) : Exec Bool :=
  if units.length = chars.length then compareFrom units chars 0 else .ok false

def eqStr (self : List UInt16) (other : List Char) : Exec Bool := compare self other

def strEq (self : List Char) (other : List UInt16) : Exec Bool := compare other self

/-! ## Strings up to the null unit -/

def beforeNul (units : List UInt16) : List UInt16 := units.takeWhile (· ≠ 0)

def Spells (chars : List Char) (units : List UInt16) : Prop :=
  chars.map Char.toNat = units.map UInt16.toNat

/-- The call yields the units before the first null unit, which compare equal to the
string with these characters, in both directions. -/
def Cuts (call : List UInt16 → Exec (List UInt16)) (units : List UInt16) : Prop :=
  ∃ string, call units = .ok string ∧ string = beforeNul units ∧
    ∀ chars, ∃ equal, eqStr string chars = .ok equal ∧ strEq chars string = .ok equal ∧
      (equal = true ↔ Spells chars (beforeNul units))

structure CutsAtNul (units : List UInt16) : Prop where
  slice : Cuts fromU16SliceWithNul units
  pointer : Cuts fromChar16WithNul units
  pointerMut : Cuts fromChar16WithNulMut units

/-! ## The search -/

def beforeLowNul (units : List UInt16) : List UInt16 := units.takeWhile (· &&& 0xff ≠ 0)

def searched : Option Nat → Exec Nat
  | some len => .ok len
  | none => .error .undefined

/-- The search, started behind units that it has passed. The induction is on the units
still ahead. -/
theorem char16WithNullLen_run (before after : List UInt16) {fuel : Nat}
    (enough : after.length < fuel) :
    Loop.run (char16WithNullLenBody (before ++ after)) fuel before.length =
      searched ((after.findIdx? (· &&& 0xff = 0)).map (before.length + ·)) := by
  induction after generalizing before fuel with
  | nil =>
    obtain ⟨fuel, rfl⟩ := Nat.exists_eq_add_of_lt enough
    simp [Loop.run, char16WithNullLenBody, searched]
  | cons unit after induction =>
    obtain ⟨fuel, rfl⟩ := Nat.exists_eq_add_of_lt enough
    have here : (before ++ unit :: after)[before.length]? = some unit := by simp
    rw [Loop.run, char16WithNullLenBody, here, List.findIdx?_cons]
    by_cases null : unit &&& 0xff = 0
    · simp [null, searched]
    · have moved : before ++ unit :: after = (before ++ [unit]) ++ after := by simp
      have length : before.length + 1 = (before ++ [unit]).length := by simp
      simp only [null, if_false, decide_false, Bool.false_eq_true, length, moved]
      rw [induction _ (by simp only [List.length_cons]; omega), Option.map_map]
      simp [Function.comp_def, Nat.add_assoc, Nat.add_comm 1]

theorem char16WithNullLen_eq_searched (units : List UInt16) :
    char16WithNullLen units = searched (units.findIdx? (· &&& 0xff = 0)) := by
  have ran := char16WithNullLen_run [] units (Nat.lt_succ_self units.length)
  simp only [List.nil_append, List.length_nil, Nat.zero_add, Option.map_id'] at ran
  exact ran

variable {units : List UInt16}

theorem findIdx?_lowNul (stops : ∃ unit ∈ units, unit &&& 0xff = 0) :
    units.findIdx? (· &&& 0xff = 0) = some (beforeLowNul units).length := by
  induction units with
  | nil => simp at stops
  | cons unit rest induction =>
    rw [List.findIdx?_cons, beforeLowNul]
    by_cases null : unit &&& 0xff = 0
    · simp [null]
    · have later : ∃ unit ∈ rest, unit &&& 0xff = 0 := by simpa [null] using stops
      simp [null, induction later, beforeLowNul]

theorem char16WithNullLen_eq (stops : ∃ unit ∈ units, unit &&& 0xff = 0) :
    char16WithNullLen units = .ok (beforeLowNul units).length := by
  rw [char16WithNullLen_eq_searched, findIdx?_lowNul stops, searched]

theorem take_beforeLowNul (units : List UInt16) :
    units.take (beforeLowNul units).length = beforeLowNul units :=
  (List.prefix_iff_eq_take.mp (List.takeWhile_prefix _)).symm

theorem length_beforeLowNul_le (units : List UInt16) : (beforeLowNul units).length ≤ units.length :=
  (List.takeWhile_prefix _).length_le

theorem fromU16SliceWithNul_endless (endless : ¬∃ unit ∈ units, unit &&& 0xff = 0) :
    fromU16SliceWithNul units = .error .undefined := by
  have never : units.findIdx? (· &&& 0xff = 0) = none := by
    rw [List.findIdx?_eq_none_iff]
    exact fun unit member => decide_eq_false fun null => endless ⟨unit, member, null⟩
  rw [fromU16SliceWithNul, char16WithNullLen_eq_searched, never]
  rfl

section Calls

variable {units : List UInt16} (stops : ∃ unit ∈ units, unit &&& 0xff = 0)

include stops

theorem fromU16SliceWithNul_eq : fromU16SliceWithNul units = .ok (beforeLowNul units) := by
  simp [fromU16SliceWithNul, char16WithNullLen_eq stops, length_beforeLowNul_le, take_beforeLowNul]

theorem fromChar16WithNul_eq : fromChar16WithNul units = .ok (beforeLowNul units) := by
  simp [fromChar16WithNul, char16WithNullLen_eq stops, fromRawParts, length_beforeLowNul_le,
    take_beforeLowNul]

theorem fromChar16WithNulMut_eq : fromChar16WithNulMut units = .ok (beforeLowNul units) :=
  fromChar16WithNul_eq stops

end Calls

/-! ## Comparisons -/

theorem val_ne_toUInt32_iff (c : Char) (unit : UInt16) :
    c.val ≠ unit.toUInt32 ↔ c.toNat ≠ unit.toNat := by
  rw [ne_eq, ← UInt32.toNat_inj, UInt16.toNat_toUInt32]
  rfl

theorem compareFrom_eq (before : List UInt16) {after : List UInt16} {chars : List Char}
    (sameLength : after.length = chars.length) :
    compareFrom (before ++ after) chars before.length =
      .ok (decide (chars.map Char.toNat = after.map UInt16.toNat)) := by
  induction chars generalizing before after with
  | nil =>
    obtain rfl := List.eq_nil_of_length_eq_zero sameLength
    rfl
  | cons c rest induction =>
    obtain ⟨unit, after, rfl⟩ := List.exists_cons_of_length_eq_add_one sameLength
    have here : (before ++ unit :: after)[before.length]? = some unit := by simp
    rw [compareFrom, here]
    simp only [val_ne_toUInt32_iff]
    by_cases same : c.toNat = unit.toNat
    · have moved : before ++ unit :: after = (before ++ [unit]) ++ after := by simp
      have length : before.length + 1 = (before ++ [unit]).length := by simp
      rw [if_neg (not_not.mpr same), length, moved, induction _ (by simpa using sameLength)]
      simp [same]
    · rw [if_pos same]
      simp [same]

theorem compare_eq (units : List UInt16) (chars : List Char) :
    compare units chars = .ok (decide (chars.map Char.toNat = units.map UInt16.toNat)) := by
  rw [compare]
  split
  · rename_i sameLength
    exact compareFrom_eq [] sameLength
  · rename_i different
    have unequal : chars.map Char.toNat ≠ units.map UInt16.toNat := by
      intro equal
      have lengths := congrArg List.length equal
      simp only [List.length_map] at lengths
      exact different lengths.symm
    simp [unequal]

/-! ## The null unit -/

theorem cuts_iff {call : List UInt16 → Exec (List UInt16)}
    (returns : call units = .ok (beforeLowNul units)) :
    Cuts call units ↔ beforeLowNul units = beforeNul units := by
  constructor
  · rintro ⟨string, returned, cut, _⟩
    rw [returns, Except.ok.injEq] at returned
    rw [returned, cut]
  · intro same
    refine ⟨_, returns, same, fun chars => ⟨_, compare_eq _ _, compare_eq _ _, ?_⟩⟩
    rw [decide_eq_true_iff, same, Spells]

theorem beforeLowNul_eq_iff (units : List UInt16) :
    beforeLowNul units = beforeNul units ↔ ∀ unit ∈ beforeNul units, unit &&& 0xff ≠ 0 := by
  constructor
  · intro same unit member
    rw [← same] at member
    simpa using List.mem_takeWhile_imp member
  · intro passed
    unfold beforeLowNul
    induction units with
    | nil => rfl
    | cons unit rest induction =>
      by_cases null : unit = 0
      · subst null
        rfl
      · have shown : beforeNul (unit :: rest) = unit :: beforeNul rest := by
          simp [beforeNul, null]
        rw [shown] at passed ⊢
        have low := passed unit List.mem_cons_self
        rw [List.takeWhile_cons_of_pos (by simpa using low),
          induction fun other member => passed other (List.mem_cons_of_mem unit member)]

theorem cutsAtNul_iff_lowBytes {units : List UInt16} (terminated : 0 ∈ units) :
    CutsAtNul units ↔ ∀ unit ∈ beforeNul units, unit &&& 0xff ≠ 0 := by
  have stops : ∃ unit ∈ units, unit &&& 0xff = 0 := ⟨0, terminated, rfl⟩
  rw [← beforeLowNul_eq_iff]
  constructor
  · intro cuts
    exact (cuts_iff (fromU16SliceWithNul_eq stops)).mp cuts.slice
  · intro same
    exact ⟨(cuts_iff (fromU16SliceWithNul_eq stops)).mpr same,
      (cuts_iff (fromChar16WithNul_eq stops)).mpr same,
      (cuts_iff (fromChar16WithNulMut_eq stops)).mpr same⟩

/-- The characters U+4E2D and U+56FD are read as they are. -/
theorem cutsAtNul_iff_lowBytes_two_units : CutsAtNul [0x4e2d, 0x56fd, 0, 0x41] := by
  refine (cutsAtNul_iff_lowBytes (by decide)).mpr ?_
  change ∀ unit ∈ [0x4e2d, 0x56fd], _
  rw [List.forall_mem_cons, List.forall_mem_singleton]
  exact ⟨by decide, by decide⟩

/-- The character U+0100 is taken for the end of the string. -/
theorem not_cutsAtNul_low_null :
    0 ∈ ([0x41, 0x100, 0] : List UInt16) ∧ ¬ CutsAtNul [0x41, 0x100, 0] := by
  refine ⟨by decide, fun cuts => ?_⟩
  rcases cuts.slice with ⟨string, returned, cut, _⟩
  have short : fromU16SliceWithNul [0x41, 0x100, 0] = .ok [0x41] := by decide
  rw [short, Except.ok.injEq] at returned
  rw [← returned] at cut
  cases cut

end HypervisorFirmware.EfiStr.OsStr
