import Mathlib.Data.List.GetD
import Mathlib.Data.List.TakeWhile
import HypervisorFirmware.Efi.VariableTable

/-! # The variable services

`get_variable` and `set_variable` of `efi/mod.rs` take names of 16-bit units and look
them up by bytes: of each unit only the low byte counts, and the name ends at the first
unit whose low byte is zero. -/

namespace HypervisorFirmware.Efi

abbrev maxVariableName : Nat := 32

def lowByte (unit : UInt16) : UInt8 := (unit &&& 0xff).toUInt8

/-- The units of a string up to the first one whose low byte is zero, that one included,
but at most `maxSize`. The search does not stop at the end of the memory it is in. -/
def getChar16Size : (message : List UInt16) → (maxSize : Nat) → Exec Nat
  | _, 0 => .ok 0
  | [], _ + 1 => .error .undefined
  | unit :: rest, maxSize + 1 =>
    if lowByte unit = 0 then .ok 1
    else do
      let size ← getChar16Size rest maxSize
      return size + 1

def char16ToChar8 : (inMessage : List UInt16) → (inMessageSize outMessageSize : Nat) →
    Exec (List UInt8)
  | _, 0, _ => .ok []
  | _, _ + 1, 0 => .ok []
  | [], _ + 1, _ + 1 => .error .undefined
  | unit :: rest, inMessageSize + 1, outMessageSize + 1 =>
    if lowByte unit = 0 then .ok [0]
    else do
      let bytes ← char16ToChar8 rest inMessageSize outMessageSize
      return lowByte unit :: bytes

def nameBuffer (bytes : List UInt8) : VariableName := Vector.ofFn fun index =>
  bytes.getD index.val 0

namespace RuntimeServices

def variableName (varName : List UInt16) : Exec (Option VariableName) := do
  let varNameSize ← getChar16Size varName (2 ^ 64 - 1)
  if varNameSize > maxVariableName then return none
  else
    let bytes ← char16ToChar8 varName varNameSize maxVariableName
    return some (nameBuffer bytes)

/-- The memory of the caller that `get_variable` writes to: behind `attributes`, unless
that is null, behind `size` and behind `data`. -/
structure CallerMemory where
  attributes : Option UInt32
  size : Nat
  data : List UInt8
  deriving DecidableEq

def deliver (caller : CallerMemory) (varAttributes : UInt32) (varSize : Nat)
    (varData : VariableData) : Exec (Status × CallerMemory) :=
  if caller.size < varSize then .ok (.bufferTooSmall, { caller with size := varSize })
  else if caller.data.length < varSize then
    -- The copy leaves the buffer of the caller.
    .error .undefined
  else
    .ok (.success,
      { attributes := caller.attributes.map fun _ => varAttributes
        size := varSize
        data := varData.toList.take varSize ++ caller.data.drop varSize })

def getVariable (varName : List UInt16) (varGuid : VariableGuid) (caller : CallerMemory)
    (table : Variable) : Exec (Status × CallerMemory) := do
  match ← variableName varName with
  | none => return (.unsupported, caller)
  | some name =>
    match ← table.getVariable name varGuid with
    | (.notFound, _, _, _) => return (.notFound, caller)
    | (_, varAttributes, varSize, some varData) =>
      deliver caller varAttributes varSize varData
    | (_, _, _, none) => .error .undefined

def setVariable (varName : List UInt16) (varGuid : VariableGuid) (attributes : UInt32)
    (size : Nat) (data : Option VariableData) (table : Variable) : Exec (Status × Variable) := do
  match ← variableName varName with
  | none => return (.unsupported, table)
  | some name =>
    if size > maxVariableData then return (.unsupported, table)
    else table.setVariable name varGuid attributes size data

/-! ## Names -/

def terminated (name : List UInt16) : List UInt16 := name ++ [0]

def narrowed (name : List UInt16) : List UInt8 := (name.map lowByte).takeWhile (· ≠ 0)

theorem narrowed_nil : narrowed [] = [] := rfl

theorem narrowed_zero {unit : UInt16} (ends : lowByte unit = 0) (rest : List UInt16) :
    narrowed (unit :: rest) = [] := by
  simp [narrowed, ends]

theorem narrowed_cons {unit : UInt16} (goesOn : lowByte unit ≠ 0) (rest : List UInt16) :
    narrowed (unit :: rest) = lowByte unit :: narrowed rest := by
  simp [narrowed, goesOn]

theorem ne_zero_of_mem_narrowed {name : List UInt16} {byte : UInt8}
    (member : byte ∈ narrowed name) : byte ≠ 0 := by
  have kept := List.mem_takeWhile_imp member
  simpa using kept

theorem getChar16Size_terminated (name : List UInt16) (maxSize : Nat) :
    getChar16Size (terminated name) maxSize = .ok (min maxSize ((narrowed name).length + 1)) := by
  induction name generalizing maxSize with
  | nil =>
    cases maxSize with
    | zero => rfl
    | succ maxSize =>
      rw [terminated, List.nil_append, getChar16Size, if_pos (by decide), narrowed_nil]
      simp
  | cons unit rest induction =>
    cases maxSize with
    | zero =>
      rw [Nat.zero_min]
      rfl
    | succ maxSize =>
      rw [terminated, List.cons_append, getChar16Size]
      by_cases ends : lowByte unit = 0
      · rw [if_pos ends, narrowed_zero ends]
        simp
      · have later := induction maxSize
        rw [terminated] at later
        rw [if_neg ends, narrowed_cons ends, later, List.length_cons, Exec.ok_bind,
          Nat.succ_min_succ]
        rfl

theorem char16ToChar8_terminated (name : List UInt16) (inMessageSize outMessageSize : Nat)
    (inside : (narrowed name).length < inMessageSize)
    (fits : (narrowed name).length < outMessageSize) :
    char16ToChar8 (terminated name) inMessageSize outMessageSize = .ok (narrowed name ++ [0]) := by
  induction name generalizing inMessageSize outMessageSize with
  | nil =>
    obtain ⟨inMessageSize, rfl⟩ := Nat.exists_eq_succ_of_ne_zero (Nat.ne_zero_of_lt inside)
    obtain ⟨outMessageSize, rfl⟩ := Nat.exists_eq_succ_of_ne_zero (Nat.ne_zero_of_lt fits)
    rw [terminated, List.nil_append, char16ToChar8, if_pos (by decide)]
    rfl
  | cons unit rest induction =>
    obtain ⟨inMessageSize, rfl⟩ := Nat.exists_eq_succ_of_ne_zero (Nat.ne_zero_of_lt inside)
    obtain ⟨outMessageSize, rfl⟩ := Nat.exists_eq_succ_of_ne_zero (Nat.ne_zero_of_lt fits)
    rw [terminated, List.cons_append, char16ToChar8]
    by_cases ends : lowByte unit = 0
    · rw [if_pos ends, narrowed_zero ends]
      rfl
    · rw [narrowed_cons ends, List.length_cons] at inside fits
      have later := induction inMessageSize outMessageSize (by omega) (by omega)
      rw [terminated] at later
      rw [if_neg ends, later, narrowed_cons ends]
      rfl

def storedName (name : List UInt16) : VariableName := nameBuffer (narrowed name ++ [0])

theorem variableName_terminated (name : List UInt16) :
    variableName (terminated name) =
      .ok (if (narrowed name).length < maxVariableName then some (storedName name) else none) := by
  have limit : maxVariableName = 32 := rfl
  rw [variableName, getChar16Size_terminated, Exec.ok_bind]
  by_cases short : (narrowed name).length < maxVariableName
  · rw [Nat.min_eq_right (by omega), if_neg (by omega), if_pos short,
      char16ToChar8_terminated name _ _ (by omega) short]
    rfl
  · rw [if_pos (by omega), if_neg short]
    rfl

theorem accepted_iff (name : List UInt16) :
    (∃ bytes, variableName (terminated name) = .ok (some bytes)) ↔
      (narrowed name).length < maxVariableName := by
  rw [variableName_terminated]
  split_ifs with short
  · exact iff_of_true ⟨_, rfl⟩ short
  · refine iff_of_false ?_ short
    rintro ⟨bytes, impossible⟩
    cases impossible

theorem toList_nameBuffer {bytes : List UInt8} (fits : bytes.length ≤ 32) :
    (nameBuffer bytes).toList = bytes ++ List.replicate (32 - bytes.length) 0 := by
  apply List.ext_getElem
  · simp
    omega
  · intro index inBuffer inBytes
    simp only [nameBuffer, Vector.getElem_toList, Vector.getElem_ofFn]
    by_cases written : index < bytes.length
    · rw [List.getElem_append_left written, List.getD_eq_getElem _ _ written]
    · have behind := Nat.not_lt.mp written
      rw [List.getElem_append_right behind, List.getD_eq_default _ _ behind, List.getElem_replicate]

theorem takeWhile_storedName {name : List UInt16}
    (short : (narrowed name).length < maxVariableName) :
    (storedName name).toList.takeWhile (· ≠ 0) = narrowed name := by
  have limit : maxVariableName = 32 := rfl
  have counted : ∀ byte ∈ narrowed name, decide (byte ≠ 0) = true := by
    intro byte member
    exact decide_eq_true (ne_zero_of_mem_narrowed member)
  rw [storedName, toList_nameBuffer (by simp; omega), List.append_assoc,
    List.takeWhile_append_of_pos counted]
  simp

theorem storedName_eq_iff {first second : List UInt16}
    (firstShort : (narrowed first).length < maxVariableName)
    (secondShort : (narrowed second).length < maxVariableName) :
    storedName first = storedName second ↔ narrowed first = narrowed second := by
  constructor
  · intro equal
    rw [← takeWhile_storedName firstShort, equal, takeWhile_storedName secondShort]
  · intro equal
    rw [storedName, equal]
    rfl

/-! ## Calls with other names -/

variable {table next : Variable} {name : List UInt16} {guid : VariableGuid}

def respond (value : VariableValue) (caller : CallerMemory) : Exec (Status × CallerMemory) :=
  if caller.size < value.size then .ok (.bufferTooSmall, { caller with size := value.size })
  else if caller.data.length < value.size then .error .undefined
  else
    .ok (.success,
      { attributes := caller.attributes.map fun _ => value.attributes
        size := value.size
        data := value.bytes ++ caller.data.drop value.size })

theorem respond_injective {first second : VariableValue}
    (equal : ∀ caller, respond first caller = respond second caller) : first = second := by
  have larger : ∀ value : VariableValue, value.size ≤ max first.size second.size →
      respond value
          ⟨some 0, max first.size second.size, List.replicate (max first.size second.size) 0⟩ =
        .ok (.success, ⟨some value.attributes, value.size,
          value.bytes ++ List.replicate (max first.size second.size - value.size) 0⟩) := by
    intro value fits
    rw [respond, if_neg (Nat.not_lt.mpr fits), if_neg (by
      rw [List.length_replicate]
      exact Nat.not_lt.mpr fits)]
    simp
  have seen := equal
    ⟨some 0, max first.size second.size, List.replicate (max first.size second.size) 0⟩
  rw [larger first (Nat.le_max_left _ _), larger second (Nat.le_max_right _ _)] at seen
  simp only [Except.ok.injEq, Prod.mk.injEq, CallerMemory.mk.injEq, Option.some.injEq,
    true_and] at seen
  rcases seen with ⟨attributes, size, bytes⟩
  rw [size] at bytes
  cases first
  cases second
  simp only [VariableValue.mk.injEq]
  exact ⟨attributes, size, List.append_cancel_right bytes⟩

theorem respond_ne_notFound (value : VariableValue) :
    ∃ caller, respond value caller ≠ .ok (.notFound, caller) := by
  refine ⟨⟨none, value.size, List.replicate value.size 0⟩, ?_⟩
  rw [respond, if_neg (Nat.lt_irrefl _), if_neg (by simp)]
  intro impossible
  cases impossible

theorem getVariable_absent (short : (narrowed name).length < maxVariableName)
    (sound : table.Sound) (absent : table.Absent (storedName name, guid))
    (caller : CallerMemory) :
    getVariable (terminated name) guid caller table = .ok (.notFound, caller) := by
  rw [getVariable, variableName_terminated, if_pos short]
  rcases sound.findVariable_cases (storedName name) guid with
    ⟨missing, _⟩ | ⟨slot, inUse, located, _⟩
  · simp only [Exec.ok_bind, Variable.Sound.getVariable_missing missing]
    rfl
  · exact absurd located (absent slot inUse)

variable {slot : VariableSlot} {attributes : UInt32} {data : Option VariableData}

theorem getVariable_holds (short : (narrowed name).length < maxVariableName) (sound : table.Sound)
    (holds : table.Holds (storedName name, guid) slot) (caller : CallerMemory) :
    getVariable (terminated name) guid caller table =
      respond (table.variableItem slot).value caller := by
  have found := sound.findVariable_of_slot holds.inUse holds.located
  rw [getVariable, variableName_terminated, if_pos short]
  simp only [Exec.ok_bind, Variable.Sound.getVariable_found found]
  rfl

section

variable (table : Variable) (first second : List UInt16) (guid : VariableGuid) (attributes : UInt32)
  (size : Nat) (data : Option VariableData)

/-- Setting a variable under the first name does not change what `get_variable` returns
for the second one. -/
def Unaffected : Prop :=
  ∃ status next,
    setVariable (terminated first) guid attributes size data table = .ok (status, next) ∧
    ∀ caller, getVariable (terminated second) guid caller next =
      getVariable (terminated second) guid caller table

/-- A call that deletes a variable does not find the second one in the last item in use.
A call that stores does not see the same name, unless the second variable has the value
already, or is not there and the table is full. -/
def Independent : Prop :=
  size ≤ maxVariableData →
    match Variable.storedData attributes size data with
    | none => (∃ slot, table.Holds (storedName first, guid) slot) →
        ∀ slot, table.Holds (storedName second, guid) slot →
          slot.val + 1 ≠ table.variableCount
    | some bytes => narrowed first = narrowed second →
        (∀ slot, table.Holds (storedName second, guid) slot →
          (table.variableItem slot).value = ⟨attributes, size, bytes.toList.take size⟩) ∧
        (table.Absent (storedName second, guid) → maxVariableItem ≤ table.variableCount)

end

section

variable (short : (narrowed name).length < maxVariableName) (sound : table.Sound)
  (nextSound : next.Sound)

include short sound nextSound

theorem lookups_equal_iff {other : VariableSlot} (holds : table.Holds (storedName name, guid) slot)
    (nextHolds : next.Holds (storedName name, guid) other) :
    (∀ caller, getVariable (terminated name) guid caller next =
        getVariable (terminated name) guid caller table) ↔
      (next.variableItem other).value = (table.variableItem slot).value := by
  simp only [getVariable_holds short sound holds, getVariable_holds short nextSound nextHolds]
  constructor
  · exact respond_injective
  · intro equal caller
    rw [equal]

theorem lookups_equal_of_absent (absent : table.Absent (storedName name, guid))
    (nextAbsent : next.Absent (storedName name, guid)) (caller : CallerMemory) :
    getVariable (terminated name) guid caller next =
      getVariable (terminated name) guid caller table := by
  rw [getVariable_absent short sound absent, getVariable_absent short nextSound nextAbsent]

theorem lookups_differ (holds : table.Holds (storedName name, guid) slot)
    (nextAbsent : next.Absent (storedName name, guid)) :
    ¬∀ caller, getVariable (terminated name) guid caller next =
      getVariable (terminated name) guid caller table := by
  intro equal
  rcases respond_ne_notFound (table.variableItem slot).value with ⟨caller, different⟩
  have same := equal caller
  rw [getVariable_holds short sound holds, getVariable_absent short nextSound nextAbsent] at same
  exact different same.symm

end

theorem setVariable_refused {first : List UInt16} {size : Nat}
    (short : (narrowed first).length < maxVariableName)
    (large : maxVariableData < size) :
    setVariable (terminated first) guid attributes size data table = .ok (.unsupported, table) := by
  rw [setVariable, variableName_terminated, if_pos short]
  simp only [Exec.ok_bind, gt_iff_lt, if_pos large]
  rfl

theorem setVariable_accepted {first : List UInt16} {size : Nat}
    (short : (narrowed first).length < maxVariableName)
    (small : size ≤ maxVariableData) :
    setVariable (terminated first) guid attributes size data table =
      table.setVariable (storedName first) guid attributes size data := by
  rw [setVariable, variableName_terminated, if_pos short]
  simp only [Exec.ok_bind, gt_iff_lt, if_neg (Nat.not_lt.mpr small)]

theorem lookups_after_delete (short : (narrowed name).length < maxVariableName)
    (sound : table.Sound) :
    (∀ caller, getVariable (terminated name) guid caller
          { table with variableCount := table.variableCount - 1 } =
        getVariable (terminated name) guid caller table) ↔
      ∀ slot, table.Holds (storedName name, guid) slot → slot.val + 1 ≠ table.variableCount := by
  rcases table.absent_or_holds (storedName name, guid) with absent | ⟨slot, holds⟩
  · have still : Variable.Absent { table with variableCount := table.variableCount - 1 }
        (storedName name, guid) :=
      fun slot inUse => absent slot (Nat.lt_of_lt_of_le inUse (Nat.sub_le _ _))
    refine iff_of_true (lookups_equal_of_absent short sound sound.drop_last absent still) ?_
    intro slot holds
    exact absurd holds.located (absent slot holds.inUse)
  · have only : (∀ other, table.Holds (storedName name, guid) other →
        other.val + 1 ≠ table.variableCount) ↔ slot.val + 1 ≠ table.variableCount := by
      constructor
      · intro notLast
        exact notLast slot holds
      · intro notLast other also
        rwa [← sound.holds_unique holds also]
    rw [only]
    have inUse := holds.inUse
    by_cases last : slot.val + 1 = table.variableCount
    · refine iff_of_false (lookups_differ short sound sound.drop_last holds ?_) (not_not.mpr last)
      intro other stillInUse located
      simp only at stillInUse located
      have same := sound.holds_unique holds ⟨by omega, located⟩
      rw [← same] at stillInUse
      omega
    · refine iff_of_true ?_ last
      have still : Variable.Holds { table with variableCount := table.variableCount - 1 }
          (storedName name, guid) slot := ⟨by simp only; omega, holds.located⟩
      exact (lookups_equal_iff short sound sound.drop_last holds still).mpr rfl

theorem lookups_after_other {key : VariableKey} {size : Nat}
    {bytes : VariableData} (short : (narrowed name).length < maxVariableName)
    (sound : table.Sound) (change : table.Change key attributes size (some bytes) next)
    (different : key ≠ (storedName name, guid)) (caller : CallerMemory) :
    getVariable (terminated name) guid caller next =
      getVariable (terminated name) guid caller table := by
  have nextSound := change.sound sound
  rcases change.other different with ⟨located, items⟩
  rcases table.absent_or_holds (storedName name, guid) with absent | ⟨slot, holds⟩
  · refine lookups_equal_of_absent short sound nextSound absent ?_ caller
    intro slot inUse equal
    have before := (located slot).mp ⟨inUse, equal⟩
    exact absent slot before.inUse before.located
  · apply (lookups_equal_iff short sound nextSound holds ((located slot).mpr holds)).mpr
    rw [items slot holds]

theorem lookups_after_same {size : Nat} {bytes : VariableData}
    (short : (narrowed name).length < maxVariableName) (sound : table.Sound)
    (change : table.Change (storedName name, guid) attributes size (some bytes) next) :
    (∀ caller, getVariable (terminated name) guid caller next =
        getVariable (terminated name) guid caller table) ↔
      (∀ slot, table.Holds (storedName name, guid) slot →
        (table.variableItem slot).value = ⟨attributes, size, bytes.toList.take size⟩) ∧
      (table.Absent (storedName name, guid) → maxVariableItem ≤ table.variableCount) := by
  have nextSound := change.sound sound
  cases change with
  | @updated slot _ holds =>
    have still : Variable.Holds (table.updateVariable slot attributes size bytes)
        (storedName name, guid) slot := holds.updateVariable attributes size bytes
    rw [lookups_equal_iff short sound nextSound holds still, Variable.updateVariable_value]
    constructor
    · intro equal
      refine ⟨?_, fun absent => absurd holds.located (absent slot holds.inUse)⟩
      intro other also
      rw [← sound.holds_unique holds also]
      exact equal.symm
    · intro unchanged
      exact (unchanged.1 slot holds).symm
  | added room absent =>
    refine iff_of_false ?_ fun full => absurd room (Nat.not_lt.mpr (full.2 absent))
    intro equal
    refine lookups_differ short nextSound sound (Variable.holds_newItem room) absent ?_
    exact fun caller => (equal caller).symm
  | dropped full absent =>
    refine iff_of_true (fun _ => rfl) ⟨?_, fun _ => full⟩
    intro slot holds
    exact absurd holds.located (absent slot holds.inUse)

/-- In every state that calls lead to: setting one variable leaves another one as it
is exactly if the call does not delete a variable while the other one is in the last
item in use, and does not store a new value under a name that looks the same. -/
theorem unaffected_iff_independent (calls : List VariableCall)
    (responses : List VariableResponse) (table : Variable)
    (ran : Machine.run Variable.step Variable.new calls = .ok (responses, table))
    (first second : List UInt16)
    (firstAccepted : ∃ bytes, variableName (terminated first) = .ok (some bytes))
    (secondAccepted : ∃ bytes, variableName (terminated second) = .ok (some bytes))
    (guid : VariableGuid) (attributes : UInt32) (size : Nat) (data : Option VariableData) :
    Unaffected table first second guid attributes size data ↔
      Independent table first second guid attributes size data := by
  have sound := Variable.sound_of_run ran
  rw [accepted_iff] at firstAccepted secondAccepted
  rw [Independent]
  by_cases small : size ≤ maxVariableData
  · rcases sound.setVariable_change small (storedName first) guid attributes data with
      ⟨next, returned, change⟩
    have unaffected : Unaffected table first second guid attributes size data ↔
        ∀ caller, getVariable (terminated second) guid caller next =
          getVariable (terminated second) guid caller table := by
      simp only [Unaffected, setVariable_accepted firstAccepted small, returned, Except.ok.injEq,
        Prod.mk.injEq, exists_and_left, exists_eq_left', and_assoc]
    rw [unaffected, imp_iff_right small]
    cases stored : Variable.storedData attributes size data with
    | none =>
      rw [stored] at change
      cases change with
      | @deleted slot holds =>
        rw [lookups_after_delete secondAccepted sound]
        exact (imp_iff_right ⟨slot, holds⟩).symm
      | missing absent =>
        refine iff_of_true (fun _ => rfl) ?_
        rintro ⟨slot, holds⟩
        exact absurd holds.located (absent slot holds.inUse)
    | some bytes =>
      rw [stored] at change
      simp only
      by_cases same : narrowed first = narrowed second
      · have key : storedName first = storedName second :=
          (storedName_eq_iff firstAccepted secondAccepted).mpr same
        rw [key] at change
        rw [imp_iff_right same]
        exact lookups_after_same secondAccepted sound change
      · refine iff_of_true (lookups_after_other secondAccepted sound change ?_)
          (fun equal => absurd equal same)
        intro equal
        rw [Prod.mk.injEq] at equal
        exact same ((storedName_eq_iff firstAccepted secondAccepted).mp equal.1)
  · have large := Nat.not_le.mp small
    refine iff_of_true ?_ (fun fits => absurd fits small)
    exact ⟨.unsupported, table, setVariable_refused firstAccepted large, fun _ => rfl⟩

/-- `A` and `B` in a store with one variable. -/
theorem unaffected_iff_independent_two_names :
    ∃ responses table,
      Machine.run Variable.step Variable.new [Variable.setLetter 0] = .ok (responses, table) ∧
      (Unaffected table [0x41] [0x42] (Vector.replicate 16 0) 7 1
          (some (Vector.replicate maxVariableData 1)) ↔
        Independent table [0x41] [0x42] (Vector.replicate 16 0) 7 1
          (some (Vector.replicate maxVariableData 1))) := by
  rcases Variable.run_letters 1 (by decide) with ⟨responses, table, ran, _⟩
  exact ⟨responses, table, ran, unaffected_iff_independent _ _ table ran [0x41] [0x42]
    ((accepted_iff _).mpr (by decide)) ((accepted_iff _).mpr (by decide)) _ 7 1 _⟩

/-- The names `A` and U+0141 look the same. -/
theorem not_unaffected_same_low_byte :
    (∃ bytes, variableName (terminated [0x141]) = .ok (some bytes)) ∧
      (∃ bytes, variableName (terminated [0x41]) = .ok (some bytes)) ∧
      ¬Unaffected Variable.new [0x141] [0x41] (Vector.replicate 16 0) 7 1
        (some (Vector.replicate maxVariableData 1)) := by
  have short : (narrowed [0x41]).length < maxVariableName := by decide
  have sameShort : (narrowed [0x141]).length < maxVariableName := by decide
  refine ⟨(accepted_iff _).mpr sameShort, (accepted_iff _).mpr short, ?_⟩
  rintro ⟨status, next, returned, equal⟩
  have sound := Variable.valid_new.toSound
  have key : storedName [0x141] = storedName [0x41] :=
    (storedName_eq_iff sameShort short).mpr (by decide)
  rcases sound.setVariable_change (by decide : 1 ≤ maxVariableData) (storedName [0x141])
      (Vector.replicate 16 0) 7 (some (Vector.replicate maxVariableData 1)) with
    ⟨after, returned', change⟩
  rw [setVariable_accepted sameShort (by decide), returned', Except.ok.injEq,
    Prod.mk.injEq] at returned
  rw [← returned.2] at equal
  rw [key, Variable.storedData_some (by decide) (by decide)] at change
  have full := ((lookups_after_same short sound change).mp equal).2
    fun _ none => absurd none (Nat.not_lt_zero _)
  exact absurd full (by decide)

end RuntimeServices

end HypervisorFirmware.Efi
