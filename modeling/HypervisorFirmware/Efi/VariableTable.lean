import HypervisorFirmware.Efi.VariableStore

/-! # The variable table over all runs

Whatever is set and deleted, in any order and beyond the 64 items: the items in use
stay well formed. A call that finds no item for its variable returns `SUCCESS` all the
same. -/

namespace HypervisorFirmware.Efi.Variable

variable {table next : Variable} {key : VariableKey} {attributes : UInt32} {size : Nat}
  {data : Option VariableData}

structure Holds (table : Variable) (key : VariableKey) (slot : VariableSlot) : Prop where
  inUse : slot.val < table.variableCount
  located : (table.variableItem slot).key = key

/-! ## What a call does -/

def newItem (key : VariableKey) (attributes : UInt32) (size : Nat) (bytes : VariableData) :
    VariableItem := ⟨key.1, key.2, attributes, size, bytes⟩

/-- The five things that a call of `set_variable` can do to the table, by what it is to
store. -/
inductive Change (table : Variable) (key : VariableKey) (attributes : UInt32) (size : Nat) :
    Option VariableData → Variable → Prop
  | deleted {slot : VariableSlot} : table.Holds key slot →
      Change table key attributes size none
        { table with variableCount := table.variableCount - 1 }
  | missing : table.Absent key → Change table key attributes size none table
  | updated {slot : VariableSlot} {bytes : VariableData} : table.Holds key slot →
      Change table key attributes size (some bytes)
        (table.updateVariable slot attributes size bytes)
  | added {bytes : VariableData} (room : table.variableCount < maxVariableItem) :
      table.Absent key →
      Change table key attributes size (some bytes)
        ({ table with variableCount := table.variableCount + 1 }.setItem
          ⟨table.variableCount, room⟩ (newItem key attributes size bytes))
  | dropped {bytes : VariableData} : maxVariableItem ≤ table.variableCount →
      table.Absent key → Change table key attributes size (some bytes) table

theorem storedData_eq_some {bytes : VariableData}
    (stored : storedData attributes size data = some bytes) :
    attributes ≠ 0 ∧ size ≠ 0 ∧ data = some bytes := by
  rw [storedData] at stored
  split_ifs at stored with deletes
  exact ⟨fun zero => deletes (.inl zero), fun zero => deletes (.inr zero), stored⟩

theorem storedData_some (hasAttributes : attributes ≠ 0) (hasSize : size ≠ 0)
    (bytes : VariableData) : storedData attributes size (some bytes) = some bytes := by
  rw [storedData, if_neg]
  rintro (zero | zero)
  · exact hasAttributes zero
  · exact hasSize zero

variable {item : VariableItem} {slot : VariableSlot}

theorem addVariable_full (full : maxVariableItem ≤ table.variableCount) :
    table.addVariable item = .ok (.success, table) := by
  rw [addVariable, findNewVariable, if_neg (Nat.not_lt.mpr full)]
  rfl

theorem Sound.setVariable_change (sound : table.Sound) (small : size ≤ maxVariableData)
    (name : VariableName) (guid : VariableGuid) (attributes : UInt32)
    (data : Option VariableData) :
    ∃ next, table.setVariable name guid attributes size data = .ok (.success, next) ∧
      table.Change (name, guid) attributes size (storedData attributes size data) next := by
  rcases sound.findVariable_cases name guid with
    ⟨missing, others⟩ | ⟨slot, inUse, located, found⟩
  · rw [setVariable_eq small missing data]
    cases storedData attributes size data with
    | none => exact ⟨table, rfl, .missing others⟩
    | some bytes =>
      by_cases room : table.variableCount < maxVariableItem
      · exact ⟨_, addVariable_eq room, .added room others⟩
      · have full := Nat.not_lt.mp room
        exact ⟨table, addVariable_full full, .dropped full others⟩
  · rw [setVariable_eq small found data]
    cases storedData attributes size data with
    | none => exact ⟨_, sound.deleteVariable_eq inUse, .deleted ⟨inUse, located⟩⟩
    | some bytes => exact ⟨_, rfl, .updated ⟨inUse, located⟩⟩

theorem Holds.fresh (sound : table.Sound) (holds : table.Holds key slot)
    (other : VariableSlot) (different : other ≠ slot) (inUse : other.val < table.variableCount) :
    (table.variableItem other).key ≠ key := by
  intro equal
  exact different (sound.distinct other slot inUse holds.inUse (equal.trans holds.located.symm))

theorem eq_of_last {room : table.variableCount < maxVariableItem} (other : VariableSlot)
    (different : other ≠ ⟨table.variableCount, room⟩)
    (inUse : other.val < table.variableCount + 1) : other.val < table.variableCount := by
  have apart : other.val ≠ table.variableCount := fun same => different (Fin.ext same)
  omega

theorem Change.sound {stored : Option VariableData} (sound : table.Sound)
    (change : table.Change key attributes size stored next) : next.Sound := by
  cases change with
  | deleted => exact sound.drop_last
  | missing => exact sound
  | @updated slot bytes holds =>
    refine sound.setItem sound.fits (fun _ _ inUse => inUse) fun other different inUse => ?_
    have unchanged := holds.fresh sound other different inUse
    rwa [← holds.located] at unchanged
  | added room absent =>
    exact sound.setItem room eq_of_last fun other _ inUse => absent other inUse
  | dropped => exact sound

/-! ## Other keys -/

theorem absent_or_holds (table : Variable) (key : VariableKey) :
    table.Absent key ∨ ∃ slot, table.Holds key slot := by
  by_cases absent : table.Absent key
  · exact .inl absent
  · simp only [Absent, not_forall, not_not] at absent
    rcases absent with ⟨slot, inUse, located⟩
    exact .inr ⟨slot, inUse, located⟩

theorem Sound.holds_unique {other : VariableSlot} (sound : table.Sound)
    (holds : table.Holds key slot) (also : table.Holds key other) : slot = other :=
  sound.distinct slot other holds.inUse also.inUse (holds.located.trans also.located.symm)

theorem holds_setItem_other {count : Nat} (kept : ∀ other : VariableSlot, other ≠ slot →
      (other.val < count ↔ other.val < table.variableCount))
    (written : item.key ≠ key) (before : ¬table.Holds key slot) (other : VariableSlot) :
    Holds ({ table with variableCount := count }.setItem slot item) key other ↔
      table.Holds key other := by
  by_cases same : other = slot
  · subst same
    refine iff_of_false ?_ before
    rintro ⟨_, located⟩
    rw [setItem_item, if_pos rfl] at located
    exact written located
  · constructor
    · rintro ⟨inUse, located⟩
      rw [setItem_item, if_neg same] at located
      exact ⟨(kept other same).mp inUse, located⟩
    · rintro ⟨inUse, located⟩
      refine ⟨(kept other same).mpr inUse, ?_⟩
      rw [setItem_item, if_neg same]
      exact located

theorem Change.other {stored : VariableData} {other : VariableKey}
    (change : table.Change key attributes size (some stored) next) (different : key ≠ other) :
    (∀ slot, next.Holds other slot ↔ table.Holds other slot) ∧
      ∀ slot, table.Holds other slot → next.variableItem slot = table.variableItem slot := by
  cases change with
  | @updated slot _ holds =>
    have before : ¬table.Holds other slot :=
      fun also => different (holds.located.symm.trans also.located)
    constructor
    · apply holds_setItem_other (fun _ _ => Iff.rfl) ?_ before
      exact fun equal => different (holds.located.symm.trans equal)
    · intro position holdsOther
      rw [updateVariable, setItem_item, if_neg]
      rintro rfl
      exact before holdsOther
  | added room absent =>
    have before : ¬table.Holds other ⟨table.variableCount, room⟩ :=
      fun also => absurd also.inUse (Nat.lt_irrefl _)
    constructor
    · refine holds_setItem_other ?_ (by exact different) before
      intro position notNew
      exact ⟨eq_of_last position notNew, Nat.lt_succ_of_lt⟩
    · intro position holdsOther
      rw [setItem_item, if_neg]
      rintro rfl
      exact before holdsOther
  | dropped => exact ⟨fun _ => Iff.rfl, fun _ _ => rfl⟩

/-! ## The items in use -/

structure Valid (table : Variable) : Prop extends Sound table where
  sized : ∀ slot : VariableSlot, slot.val < table.variableCount →
    1 ≤ (table.variableItem slot).dataSize ∧
      (table.variableItem slot).dataSize ≤ maxVariableData
  attributed : ∀ slot : VariableSlot, slot.val < table.variableCount →
    (table.variableItem slot).attributes ≠ 0

theorem valid_new : new.Valid where
  fits := Nat.zero_le _
  distinct := fun _ _ none => absurd none (Nat.not_lt_zero _)
  sized := fun _ none => absurd none (Nat.not_lt_zero _)
  attributed := fun _ none => absurd none (Nat.not_lt_zero _)

theorem Valid.setItem (valid : table.Valid) {count : Nat}
    (sound : Sound ({ table with variableCount := count }.setItem slot item))
    (grown : ∀ other : VariableSlot, other ≠ slot → other.val < count →
      other.val < table.variableCount)
    (sized : 1 ≤ item.dataSize ∧ item.dataSize ≤ maxVariableData)
    (attributed : item.attributes ≠ 0) :
    Valid ({ table with variableCount := count }.setItem slot item) := by
  refine ⟨sound, ?_, ?_⟩
  all_goals
    intro other inUse
    rw [setItem_item]
    split_ifs with same
  · exact sized
  · exact valid.sized other (grown other same inUse)
  · exact attributed
  · exact valid.attributed other (grown other same inUse)

theorem Change.valid (valid : table.Valid) (small : size ≤ maxVariableData)
    (change : table.Change key attributes size (storedData attributes size data) next) :
    next.Valid := by
  have sound := change.sound valid.toSound
  generalize given : storedData attributes size data = stored at change
  cases change with
  | deleted =>
    refine ⟨sound, ?_, ?_⟩
    · exact fun slot inUse => valid.sized slot (Nat.lt_of_lt_of_le inUse (Nat.sub_le _ _))
    · exact fun slot inUse =>
        valid.attributed slot (Nat.lt_of_lt_of_le inUse (Nat.sub_le _ _))
  | missing => exact valid
  | updated holds =>
    rcases storedData_eq_some given with ⟨hasAttributes, hasSize, _⟩
    exact valid.setItem sound (fun _ _ inUse => inUse)
      ⟨Nat.one_le_iff_ne_zero.mpr hasSize, small⟩ hasAttributes
  | added room absent =>
    rcases storedData_eq_some given with ⟨hasAttributes, hasSize, _⟩
    exact valid.setItem sound eq_of_last ⟨Nat.one_le_iff_ne_zero.mpr hasSize, small⟩ hasAttributes
  | dropped => exact valid

theorem Sound.getVariable_returns (sound : table.Sound) (name : VariableName)
    (guid : VariableGuid) : ∃ result, table.getVariable name guid = .ok result := by
  rcases sound.findVariable_cases name guid with ⟨missing, _⟩ | ⟨slot, _, _, found⟩
  · exact ⟨_, getVariable_missing missing⟩
  · exact ⟨_, getVariable_found found⟩

theorem Valid.step_valid (valid : table.Valid) {call : VariableCall} (fits : call.Fits) :
    ∃ response next, table.step call = .ok (response, next) ∧ next.Valid := by
  cases call with
  | getVariable name guid =>
    rcases valid.getVariable_returns name guid with ⟨result, returned⟩
    refine ⟨⟨result.1, result.2.1, result.2.2.1, result.2.2.2⟩, table, ?_, valid⟩
    rw [step, returned]
    rfl
  | setVariable name guid attributes size data =>
    rcases valid.setVariable_change fits name guid attributes data with
      ⟨next, returned, change⟩
    refine ⟨⟨.success, 0, 0, none⟩, next, ?_, change.valid valid fits⟩
    rw [step, returned]
    rfl

/-- In every run of calls with data that fit, no index leaves the table, and in every
state the items in use are within the table, have different keys, and have data and
attributes. -/
theorem table_valid_throughout (calls : List VariableCall)
    (fit : ∀ call ∈ calls, call.Fits) : Machine.Always step Valid new calls :=
  Machine.always_of_preserved Valid Valid VariableCall.Fits (fun _ valid => valid)
    (fun _ _ valid fits => valid.step_valid fits) fit valid_new

theorem table_valid_throughout_two_variables :
    Machine.Always step Valid new
      [setLetter 1, setLetter 2, deleteLetter 1, deleteLetter 1, setLetter 1, deleteLetter 3] := by
  apply table_valid_throughout
  simp [VariableCall.Fits, setLetter, deleteLetter, maxVariableData]

/-! ## Reading what was written -/

section

variable (table : Variable) (key : VariableKey) (attributes : UInt32) (size : Nat)
  (bytes : VariableData)

def ReadsBack : Prop :=
  Reads (table.getVariable key.1 key.2) (some ⟨attributes, size, bytes.toList.take size⟩)

/-- A call that returns `SUCCESS` has stored the variable, and one that has not stored it
returns an error. -/
def ReportsTruly : Prop :=
  ∃ status next,
    table.setVariable key.1 key.2 attributes size (some bytes) = .ok (status, next) ∧
    (status = .success → next.ReadsBack key attributes size bytes) ∧
    (¬next.ReadsBack key attributes size bytes → status.isError = true)

end

theorem Absent.not_readsBack (sound : table.Sound) (absent : table.Absent key)
    (bytes : VariableData) : ¬table.ReadsBack key attributes size bytes := by
  intro reads
  rcases sound.findVariable_cases key.1 key.2 with ⟨missing, _⟩ | ⟨slot, inUse, located, _⟩
  · rw [ReadsBack, Sound.getVariable_missing missing] at reads
    rcases reads with ⟨_, impossible, _⟩
    cases impossible
  · exact absent slot inUse located

theorem Holds.readsBack (sound : table.Sound) (holds : table.Holds key slot) {bytes : VariableData}
    (value : (table.variableItem slot).value = ⟨attributes, size, bytes.toList.take size⟩) :
    table.ReadsBack key attributes size bytes := by
  rw [ReadsBack, ← value]
  exact Sound.reads_value (sound.findVariable_of_slot holds.inUse holds.located)

theorem Holds.updateVariable (holds : table.Holds key slot)
    (attributes : UInt32) (size : Nat) (bytes : VariableData) :
    (table.updateVariable slot attributes size bytes).Holds key slot := by
  refine ⟨holds.inUse, ?_⟩
  rw [Variable.updateVariable, setItem_item, if_pos rfl, ← holds.located]
  rfl

theorem updateVariable_value (slot : VariableSlot) (attributes : UInt32) (size : Nat)
    (bytes : VariableData) :
    ((table.updateVariable slot attributes size bytes).variableItem slot).value =
      ⟨attributes, size, bytes.toList.take size⟩ := by
  rw [updateVariable, setItem_item, if_pos rfl]
  rfl

theorem holds_newItem (room : table.variableCount < maxVariableItem) {bytes : VariableData} :
    Holds ({ table with variableCount := table.variableCount + 1 }.setItem
      ⟨table.variableCount, room⟩ (newItem key attributes size bytes)) key
      ⟨table.variableCount, room⟩ := by
  refine ⟨Nat.lt_succ_self _, ?_⟩
  rw [setItem_item, if_pos rfl]
  rfl

theorem Change.readsBack_iff {bytes : VariableData} (sound : table.Sound)
    (change : table.Change key attributes size (some bytes) next) :
    next.ReadsBack key attributes size bytes ↔
      (∃ slot, table.Holds key slot) ∨ table.variableCount < maxVariableItem := by
  have nextSound := change.sound sound
  cases change with
  | @updated slot _ holds =>
    refine iff_of_true ?_ (.inl ⟨slot, holds⟩)
    exact (holds.updateVariable attributes size bytes).readsBack nextSound
      (updateVariable_value slot attributes size bytes)
  | added room absent =>
    refine iff_of_true ?_ (.inr room)
    apply (holds_newItem room).readsBack nextSound
    rw [setItem_item, if_pos rfl]
    rfl
  | dropped full absent =>
    refine iff_of_false (absent.not_readsBack sound bytes) ?_
    rintro (⟨slot, holds⟩ | room)
    · exact absent slot holds.inUse holds.located
    · exact Nat.not_lt.mpr full room

theorem Sound.step_sound {call : VariableCall} {response : VariableResponse}
    (sound : table.Sound) (stepped : table.step call = .ok (response, next)) : next.Sound := by
  cases call with
  | getVariable name guid =>
    rcases sound.getVariable_returns name guid with ⟨result, returned⟩
    rw [step, returned] at stepped
    cases stepped
    exact sound
  | setVariable name guid attributes size data =>
    by_cases small : size ≤ maxVariableData
    · rcases sound.setVariable_change small name guid attributes data with
        ⟨after, returned, change⟩
      rw [step, returned] at stepped
      cases stepped
      exact change.sound sound
    · rw [step, setVariable, if_neg small] at stepped
      cases stepped

theorem sound_of_run {calls : List VariableCall} {responses : List VariableResponse}
    (ran : Machine.run step new calls = .ok (responses, table)) : table.Sound := by
  have preserved : ∀ (state : Variable) (call : VariableCall) (response : VariableResponse)
      (next : Variable), state.Sound → True → state.step call = .ok (response, next) →
        next.Sound :=
    fun _ _ _ _ sound _ stepped => sound.step_sound stepped
  exact Machine.run_invariant Sound preserved valid_new.toSound
    (Machine.everyStep_of_forall (fun _ _ => trivial) new) ran

/-- Behind every run of calls: what `set_variable` reports is true exactly if the table
has an item for the variable, its own or a new one. -/
theorem reportsTruly_iff_room (calls : List VariableCall) (responses : List VariableResponse)
    (table : Variable) (ran : Machine.run step new calls = .ok (responses, table))
    (key : VariableKey) (attributes : UInt32) (size : Nat) (bytes : VariableData)
    (hasAttributes : attributes ≠ 0) (hasSize : size ≠ 0) (small : size ≤ maxVariableData) :
    table.ReportsTruly key attributes size bytes ↔
      (∃ slot, table.Holds key slot) ∨ table.variableCount < maxVariableItem := by
  have sound := sound_of_run ran
  rcases sound.setVariable_change small key.1 key.2 attributes (some bytes) with
    ⟨next, returned, change⟩
  rw [storedData_some hasAttributes hasSize] at change
  rw [← change.readsBack_iff sound]
  constructor
  · rintro ⟨status, after, returned', truly, _⟩
    rw [returned, Except.ok.injEq, Prod.mk.injEq] at returned'
    rw [returned'.2]
    exact truly returned'.1.symm
  · intro readsBack
    exact ⟨.success, next, returned, fun _ => readsBack, fun lost => absurd readsBack lost⟩

/-! ## A full table -/

def letterKey (letter : UInt8) : VariableKey :=
  (Vector.replicate 32 letter, Vector.replicate 16 0)

theorem letterKey_injective {left right : UInt8} (equal : letterKey left = letterKey right) :
    left = right := by
  have names := congrArg (fun key : VariableKey => key.1.toList.head?) equal
  simpa [letterKey, List.head?_replicate] using names

theorem run_letters (count : Nat) (fits : count ≤ maxVariableItem) :
    ∃ responses table,
      Machine.run step new ((List.range count).map fun index => setLetter (UInt8.ofNat index)) =
        .ok (responses, table) ∧ table.variableCount = count ∧
      ∀ slot : VariableSlot, slot.val < count →
        (table.variableItem slot).key = letterKey (UInt8.ofNat slot.val) := by
  induction count with
  | zero => exact ⟨[], new, rfl, rfl, fun _ none => absurd none (Nat.not_lt_zero _)⟩
  | succ count induction =>
    rcases induction (Nat.le_of_succ_le fits) with ⟨responses, table, ran, counted, keys⟩
    have capacity : maxVariableItem = 64 := rfl
    have absent : table.Absent (letterKey (UInt8.ofNat count)) := by
      intro slot inUse equal
      rw [counted] at inUse
      rw [keys slot inUse] at equal
      have same := congrArg UInt8.toNat (letterKey_injective equal)
      simp only [UInt8.toNat_ofNat'] at same
      omega
    rcases (sound_of_run ran).setVariable_change (by decide : 4 ≤ maxVariableData)
        (letterKey (UInt8.ofNat count)).1 (letterKey (UInt8.ofNat count)).2 7
        (some (Vector.replicate maxVariableData (UInt8.ofNat count))) with
      ⟨next, returned, change⟩
    have once : table.step (setLetter (UInt8.ofNat count)) =
        .ok (⟨.success, 0, 0, none⟩, next) := by
      rw [letterKey] at returned
      rw [setLetter, step, returned]
      rfl
    refine ⟨responses ++ [⟨.success, 0, 0, none⟩], next, ?_, ?_⟩
    · rw [List.range_succ, List.map_append]
      refine Machine.run_append ran ?_
      simp only [List.map_cons, List.map_nil, Machine.run, once]
    · cases change with
      | updated holds => exact absurd holds.located (absent _ holds.inUse)
      | dropped full => omega
      | added room =>
        refine ⟨congrArg (· + 1) counted, ?_⟩
        intro slot inUse
        rw [setItem_item]
        split_ifs with isNew
        · have last : slot.val = count := by rw [isNew, ← counted]
          rw [last]
          rfl
        · exact keys slot (counted ▸ eq_of_last slot isNew (counted ▸ inUse))

theorem reportsTruly_iff_room_one_variable :
    ∃ responses table, Machine.run step new [setLetter 0] = .ok (responses, table) ∧
      (table.ReportsTruly (letterKey 5) 7 4 (Vector.replicate maxVariableData 5) ↔
        (∃ slot, table.Holds (letterKey 5) slot) ∨ table.variableCount < maxVariableItem) := by
  rcases run_letters 1 (by decide) with ⟨responses, table, ran, _⟩
  exact ⟨responses, table, ran, reportsTruly_iff_room _ _ table ran (letterKey 5) 7 4 _
    (by decide) (by decide) (by decide)⟩

/-- The 65th variable is not stored, and the call returns `SUCCESS`. -/
theorem not_reportsTruly_full_table :
    ∃ responses table,
      Machine.run step new ((List.range 64).map fun index => setLetter (UInt8.ofNat index)) =
        .ok (responses, table) ∧
      ¬table.ReportsTruly (letterKey 64) 7 4 (Vector.replicate maxVariableData 64) := by
  rcases run_letters 64 (by decide) with ⟨responses, table, ran, counted, keys⟩
  refine ⟨responses, table, ran, ?_⟩
  have sound := sound_of_run ran
  rintro ⟨status, next, returned, truly, _⟩
  rcases sound.setVariable_change (by decide : 4 ≤ maxVariableData) (letterKey 64).1
      (letterKey 64).2 7 (some (Vector.replicate maxVariableData 64)) with
    ⟨after, returned', change⟩
  rw [returned', Except.ok.injEq, Prod.mk.injEq] at returned
  have readsBack := truly returned.1.symm
  rw [← returned.2, change.readsBack_iff sound, counted] at readsBack
  rcases readsBack with ⟨slot, holds⟩ | room
  · have located := keys slot (counted ▸ holds.inUse)
    rw [holds.located] at located
    have same := congrArg UInt8.toNat (letterKey_injective located)
    have inside := holds.inUse
    simp only [UInt8.toNat_ofNat', UInt8.reduceToNat] at same
    omega
  · exact absurd room (by decide)

end HypervisorFirmware.Efi.Variable
