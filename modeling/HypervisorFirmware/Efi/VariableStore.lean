import Mathlib.Data.List.FinRange
import HypervisorFirmware.Efi.Variable
import HypervisorFirmware.Foundation.FiniteMap

/-! # The variable store as a finite map

What the variable calls are for: a map from names and GUIDs to values. The table
of `efi/variable.rs` follows it as long as only its last item is deleted. -/

namespace HypervisorFirmware.Efi

abbrev VariableKey := VariableName × VariableGuid

structure VariableValue where
  attributes : UInt32
  size : Nat
  bytes : List UInt8
  deriving DecidableEq

abbrev VariableStore := FiniteMap VariableKey VariableValue

/-- What a call means: the last value set counts, until the key is deleted. -/
def VariableStore.apply (store : VariableStore) : VariableCall → VariableStore
  | .getVariable _ _ => store
  | .setVariable name guid attributes size data =>
    Function.update store (name, guid)
      ((Variable.storedData attributes size data).map fun data =>
        ⟨attributes, size, data.toList.take size⟩)

def VariableCall.Fits : VariableCall → Prop
  | .getVariable _ _ => True
  | .setVariable _ _ _ size _ => size ≤ maxVariableData

namespace VariableItem

def key (item : VariableItem) : VariableKey := (item.name, item.guid)

def value (item : VariableItem) : VariableValue :=
  ⟨item.attributes, item.dataSize, item.data.toList.take item.dataSize⟩

end VariableItem

namespace Variable

def Reads (outcome : Exec (Status × UInt32 × Nat × Option VariableData)) :
    Option VariableValue → Prop
  | none => outcome = .ok (.notFound, 0, 0, none)
  | some value => ∃ data : VariableData,
      outcome = .ok (.success, value.attributes, value.size, some data) ∧
        data.toList.take value.size = value.bytes

def Agrees (table : Variable) (store : VariableStore) : Prop :=
  ∀ name guid, Reads (table.getVariable name guid) (store (name, guid))

def trackedStep (state : Variable × VariableStore) (call : VariableCall) :
    Exec (VariableResponse × Variable × VariableStore) := do
  let (response, next) ← state.1.step call
  return (response, next, state.2.apply call)

/-- The data fit in an item, and no more variables are live then than the table has
items. -/
def Admitted (store : VariableStore) (call : VariableCall) : Prop :=
  (store.apply call).AtMost maxVariableItem ∧ call.Fits

/-- If the call deletes a variable, it is the one in the last item in use. -/
def DeletesLast (table : Variable) : VariableCall → Prop
  | .getVariable _ _ => True
  | .setVariable name guid attributes size data =>
    storedData attributes size data = none →
      ∀ slot : VariableSlot, slot.val < table.variableCount →
        (table.variableItem slot).key = (name, guid) →
        slot.val + 1 = table.variableCount

/-! ## The table -/

/-- The items in use are within the table and have different keys. -/
structure Sound (table : Variable) : Prop where
  fits : table.variableCount ≤ maxVariableItem
  distinct : ∀ left right : VariableSlot, left.val < table.variableCount →
    right.val < table.variableCount →
    (table.variableItem left).key = (table.variableItem right).key → left = right

/-- No slot in use has the key. -/
def Absent (table : Variable) (key : VariableKey) : Prop :=
  ∀ slot : VariableSlot, slot.val < table.variableCount → (table.variableItem slot).key ≠ key

structure Stores (table : Variable) (store : VariableStore) : Prop where
  stored : ∀ slot : VariableSlot, slot.val < table.variableCount →
    store (table.variableItem slot).key = some (table.variableItem slot).value
  complete : ∀ key, store key ≠ none →
    ∃ slot : VariableSlot, slot.val < table.variableCount ∧
      (table.variableItem slot).key = key

variable {table : Variable} {store : VariableStore} {name : VariableName}
  {guid : VariableGuid}

theorem findFrom_cases (table : Variable) (name : VariableName) (guid : VariableGuid)
    (remaining index : Nat) (inside : index + remaining ≤ maxVariableItem) :
    (table.findFrom name guid remaining index = .ok none ∧
      ∀ slot : VariableSlot, index ≤ slot.val → slot.val < index + remaining →
        (table.variableItem slot).key ≠ (name, guid)) ∨
    ∃ slot : VariableSlot, slot.val < index + remaining ∧
      (table.variableItem slot).key = (name, guid) ∧
      table.findFrom name guid remaining index = .ok (some slot) := by
  induction remaining generalizing index with
  | zero => exact .inl ⟨rfl, fun slot lower upper => absurd upper (by omega)⟩
  | succ remaining induction =>
    have here : slotAt index = .ok ⟨index, by omega⟩ := dif_pos (by omega)
    rw [findFrom, here]
    simp only [Exec.ok_bind]
    split_ifs with same
    · refine .inr ⟨⟨index, by omega⟩, by simp only; omega, ?_, rfl⟩
      rw [VariableItem.key, same.1, same.2]
    · rcases induction (index + 1) (by omega) with ⟨missing, others⟩ | ⟨slot, inUse, found⟩
      · refine .inl ⟨missing, ?_⟩
        intro slot lower upper equal
        by_cases first : slot.val = index
        · have located : slot = ⟨index, by omega⟩ := Fin.ext first
          rw [located] at equal
          exact same ⟨(congrArg Prod.fst equal).symm, (congrArg Prod.snd equal).symm⟩
        · exact others slot (by omega) (by omega) equal
      · exact .inr ⟨slot, by omega, found⟩

theorem Stores.none_of_absent {key : VariableKey} (stores : table.Stores store)
    (absent : table.Absent key) : store key = none := by
  by_contra live
  rcases stores.complete key live with ⟨slot, inUse, located⟩
  exact absent slot inUse located

namespace Sound

theorem findVariable_cases (sound : table.Sound) (name : VariableName) (guid : VariableGuid) :
    (table.findVariable name guid = .ok none ∧ table.Absent (name, guid)) ∨
    ∃ slot : VariableSlot, slot.val < table.variableCount ∧
      (table.variableItem slot).key = (name, guid) ∧
      table.findVariable name guid = .ok (some slot) := by
  have fits := sound.fits
  rcases findFrom_cases table name guid table.variableCount 0 (by omega) with
    ⟨missing, others⟩ | ⟨slot, inUse, found⟩
  · exact .inl ⟨missing, fun slot inUse => others slot (Nat.zero_le _) (by omega)⟩
  · exact .inr ⟨slot, by omega, found⟩

theorem getVariable_missing (missing : table.findVariable name guid = .ok none) :
    table.getVariable name guid = .ok (.notFound, 0, 0, none) := by
  rw [getVariable, missing]
  rfl

variable {slot : VariableSlot}

theorem getVariable_found (found : table.findVariable name guid = .ok (some slot)) :
    table.getVariable name guid =
      .ok (.success, (table.variableItem slot).attributes, (table.variableItem slot).dataSize,
        some (table.variableItem slot).data) := by
  rw [getVariable, found]
  rfl

theorem reads_value (found : table.findVariable name guid = .ok (some slot)) :
    Reads (table.getVariable name guid) (some (table.variableItem slot).value) :=
  ⟨_, getVariable_found found, rfl⟩

theorem eq_value_of_reads {expected : Option VariableValue}
    (found : table.findVariable name guid = .ok (some slot))
    (reads : Reads (table.getVariable name guid) expected) :
    expected = some (table.variableItem slot).value := by
  cases expected with
  | none =>
    rw [Reads, getVariable_found found] at reads
    cases reads
  | some value =>
    rcases reads with ⟨data, outcome, bytes⟩
    rw [getVariable_found found] at outcome
    simp only [Except.ok.injEq, Prod.mk.injEq, Option.some.injEq] at outcome
    rcases outcome with ⟨_, attributes, size, same⟩
    rw [VariableItem.value, attributes, size, same, bytes]

theorem findVariable_of_slot (sound : table.Sound) (inUse : slot.val < table.variableCount)
    (located : (table.variableItem slot).key = (name, guid)) :
    table.findVariable name guid = .ok (some slot) := by
  rcases sound.findVariable_cases name guid with
    ⟨_, others⟩ | ⟨other, otherInUse, otherLocated, found⟩
  · exact absurd located (others slot inUse)
  · rw [found, sound.distinct other slot otherInUse inUse (otherLocated.trans located.symm)]

theorem agrees_iff_stores (sound : table.Sound) : table.Agrees store ↔ table.Stores store := by
  constructor
  · intro agrees
    constructor
    · intro slot inUse
      exact eq_value_of_reads (sound.findVariable_of_slot inUse rfl) (agrees _ _)
    · rintro ⟨name, guid⟩ live
      rcases sound.findVariable_cases name guid with ⟨missing, _⟩ | ⟨slot, inUse, located, _⟩
      · have reads := agrees name guid
        rw [getVariable_missing missing] at reads
        cases expected : store (name, guid) with
        | none => exact absurd expected live
        | some value =>
          rw [expected] at reads
          rcases reads with ⟨_, impossible, _⟩
          cases impossible
      · exact ⟨slot, inUse, located⟩
  · intro stores name guid
    rcases sound.findVariable_cases name guid with
      ⟨missing, others⟩ | ⟨slot, inUse, located, found⟩
    · rw [stores.none_of_absent others]
      exact getVariable_missing missing
    · rw [← located, stores.stored slot inUse]
      exact reads_value found

/-! ## Deleting, updating and adding an item -/

theorem deleteVariable_eq (sound : table.Sound) (inUse : slot.val < table.variableCount) :
    table.deleteVariable slot =
      .ok (.success, { table with variableCount := table.variableCount - 1 }) := by
  have fits := sound.fits
  have capacity : maxVariableItem = 64 := rfl
  have used : table.variableCount ≠ 0 := by omega
  have pred : wrappingPred table.variableCount = table.variableCount - 1 := by
    unfold wrappingPred
    omega
  rw [deleteVariable, findLastVariable, if_neg used]
  simp only [pure_bind, pred]
  rfl

theorem drop_last (sound : table.Sound) :
    Sound { table with variableCount := table.variableCount - 1 } where
  fits := Nat.le_trans (Nat.sub_le _ _) sound.fits
  distinct := fun left right leftInUse rightInUse =>
    sound.distinct left right (Nat.lt_of_lt_of_le leftInUse (Nat.sub_le _ _))
      (Nat.lt_of_lt_of_le rightInUse (Nat.sub_le _ _))

theorem stores_drop_last_iff (sound : table.Sound) (stores : table.Stores store)
    (inUse : slot.val < table.variableCount)
    (located : (table.variableItem slot).key = (name, guid)) :
    Stores { table with variableCount := table.variableCount - 1 }
        (Function.update store (name, guid) none) ↔
      slot.val + 1 = table.variableCount := by
  constructor
  · intro kept
    by_contra notLast
    have still := kept.stored slot (by simp only; omega)
    simp only [located, Function.update_self] at still
    cases still
  · intro last
    constructor
    · intro other otherInUse
      simp only at otherInUse ⊢
      have different : (table.variableItem other).key ≠ (name, guid) := by
        intro equal
        have same := sound.distinct other slot (by omega) inUse (equal.trans located.symm)
        rw [same] at otherInUse
        omega
      rw [Function.update_of_ne different]
      exact stores.stored other (by omega)
    · intro key live
      have different : key ≠ (name, guid) := by
        intro equal
        rw [equal, Function.update_self] at live
        exact live rfl
      rw [Function.update_of_ne different] at live
      rcases stores.complete key live with ⟨other, otherInUse, otherLocated⟩
      refine ⟨other, ?_, otherLocated⟩
      have notSlot : other ≠ slot := by
        intro same
        rw [same, located] at otherLocated
        exact different otherLocated.symm
      have apart : other.val ≠ slot.val := fun same => notSlot (Fin.ext same)
      simp only
      omega

end Sound

theorem setItem_item (table : Variable) (slot other : VariableSlot) (item : VariableItem) :
    (table.setItem slot item).variableItem other =
      if other = slot then item else table.variableItem other :=
  Function.update_apply _ _ _ _

variable {item : VariableItem} {slot : VariableSlot} {attributes : UInt32}

theorem Sound.setItem (sound : table.Sound) {count : Nat} (fits : count ≤ maxVariableItem)
    (grown : ∀ other : VariableSlot, other ≠ slot → other.val < count →
      other.val < table.variableCount)
    (fresh : ∀ other : VariableSlot, other ≠ slot → other.val < table.variableCount →
      (table.variableItem other).key ≠ item.key) :
    Sound ({ table with variableCount := count }.setItem slot item) := by
  refine ⟨fits, ?_⟩
  intro left right leftInUse rightInUse equal
  rw [setItem_item, setItem_item] at equal
  split_ifs at equal with isLeft isRight isRight
  · rw [isLeft, isRight]
  · exact absurd equal.symm (fresh right isRight (grown right isRight rightInUse))
  · exact absurd equal (fresh left isLeft (grown left isLeft leftInUse))
  · exact sound.distinct left right (grown left isLeft leftInUse)
      (grown right isRight rightInUse) equal

theorem Stores.setItem (stores : table.Stores store) {count : Nat} (inUse : slot.val < count)
    (kept : ∀ other : VariableSlot, other.val < table.variableCount → other.val < count)
    (grown : ∀ other : VariableSlot, other ≠ slot → other.val < count →
      other.val < table.variableCount)
    (fresh : ∀ other : VariableSlot, other ≠ slot → other.val < table.variableCount →
      (table.variableItem other).key ≠ item.key)
    (replaced : slot.val < table.variableCount → (table.variableItem slot).key = item.key) :
    Stores ({ table with variableCount := count }.setItem slot item)
      (Function.update store item.key (some item.value)) := by
  constructor
  · intro other otherInUse
    rw [setItem_item]
    split_ifs with same
    · exact Function.update_self _ _ _
    · have before := grown other same otherInUse
      rw [Function.update_of_ne (fresh other same before)]
      exact stores.stored other before
  · intro key live
    by_cases equal : key = item.key
    · refine ⟨slot, inUse, ?_⟩
      rw [setItem_item, if_pos rfl, equal]
    · rw [Function.update_of_ne equal] at live
      rcases stores.complete key live with ⟨other, otherInUse, located⟩
      refine ⟨other, kept other otherInUse, ?_⟩
      have different : other ≠ slot := by
        intro same
        rw [same] at otherInUse located
        exact equal (located.symm.trans (replaced otherInUse))
      rw [setItem_item, if_neg different, located]

theorem Stores.room {key : VariableKey} {value : VariableValue} (stores : table.Stores store)
    (sound : table.Sound)
    (absent : table.Absent key)
    (bounded : FiniteMap.AtMost maxVariableItem (Function.update store key (some value))) :
    table.variableCount < maxVariableItem := by
  let slot : Fin table.variableCount → VariableSlot :=
    fun index => ⟨index, Nat.lt_of_lt_of_le index.isLt sound.fits⟩
  let keys := (List.finRange table.variableCount).map fun index =>
    (table.variableItem (slot index)).key
  have injective : Function.Injective fun index => (table.variableItem (slot index)).key := by
    intro left right equal
    have same := sound.distinct (slot left) (slot right) left.isLt right.isLt equal
    exact Fin.ext (congrArg (fun slot : VariableSlot => slot.val) same)
  have nodup : (key :: keys).Nodup := by
    rw [List.nodup_cons]
    refine ⟨?_, List.Nodup.map injective (List.nodup_finRange _)⟩
    intro member
    rcases List.mem_map.mp member with ⟨index, _, equal⟩
    exact absent (slot index) index.isLt equal
  have live : ∀ other ∈ key :: keys, Function.update store key (some value) other ≠ none := by
    intro other member
    rcases List.mem_cons.mp member with equal | member
    · simp [equal]
    · rcases List.mem_map.mp member with ⟨index, _, equal⟩
      rw [← equal, Function.update_of_ne (absent (slot index) index.isLt),
        stores.stored (slot index) index.isLt]
      exact Option.some_ne_none _
  have length := bounded.length_le nodup live
  rw [List.length_cons, List.length_map, List.length_finRange] at length
  exact length

/-! ## One call -/

theorem addVariable_eq (room : table.variableCount < maxVariableItem) :
    table.addVariable item =
      .ok (.success, { table with variableCount := table.variableCount + 1 }.setItem
        ⟨table.variableCount, room⟩ item) := by
  have here : slotAt table.variableCount = .ok ⟨table.variableCount, room⟩ := dif_pos room
  rw [addVariable, findNewVariable, if_pos room, here]
  rfl

theorem addVariable_stores (sound : table.Sound) (stores : table.Stores store)
    (absent : table.Absent item.key)
    (room : table.variableCount < maxVariableItem) :
    ∃ next, table.addVariable item = .ok (.success, next) ∧ next.Sound ∧
      next.Stores (Function.update store item.key (some item.value)) := by
  have grown : ∀ other : VariableSlot, other ≠ ⟨table.variableCount, room⟩ →
      other.val < table.variableCount + 1 → other.val < table.variableCount := by
    intro other different inUse
    have apart : other.val ≠ table.variableCount := fun same => different (Fin.ext same)
    omega
  have fresh : ∀ other : VariableSlot, other ≠ ⟨table.variableCount, room⟩ →
      other.val < table.variableCount → (table.variableItem other).key ≠ item.key :=
    fun other _ inUse => absent other inUse
  refine ⟨_, addVariable_eq room, sound.setItem room grown fresh, ?_⟩
  exact stores.setItem (Nat.lt_succ_self _) (fun _ inUse => Nat.lt_succ_of_lt inUse)
    grown fresh (fun inUse => absurd inUse (Nat.lt_irrefl _))

theorem updateVariable_stores (sound : table.Sound)
    (stores : table.Stores store) (inUse : slot.val < table.variableCount)
    (attributes : UInt32) (size : Nat) (data : VariableData) :
    (table.updateVariable slot attributes size data).Sound ∧
      (table.updateVariable slot attributes size data).Stores
        (Function.update store (table.variableItem slot).key
          (some ⟨attributes, size, data.toList.take size⟩)) := by
  have fresh : ∀ other : VariableSlot, other ≠ slot → other.val < table.variableCount →
      (table.variableItem other).key ≠ (table.variableItem slot).key := by
    intro other different otherInUse equal
    exact different (sound.distinct other slot otherInUse inUse equal)
  have kept : ∀ other : VariableSlot, other.val < table.variableCount →
      other.val < table.variableCount := fun _ inUse => inUse
  constructor
  · exact sound.setItem sound.fits (fun other _ => kept other) fresh
  · exact stores.setItem inUse kept (fun other _ => kept other) fresh (fun _ => rfl)

theorem setVariable_eq {size : Nat} {search : Option VariableSlot}
    (small : size ≤ maxVariableData) (searched : table.findVariable name guid = .ok search)
    (data : Option VariableData) :
    table.setVariable name guid attributes size data =
      table.changeVariable name guid attributes size search (storedData attributes size data) := by
  rw [setVariable, if_pos small, searched]
  rfl

theorem setVariable_exact {size : Nat} {data : Option VariableData}
    (sound : table.Sound) (stores : table.Stores store)
    (admitted : Admitted store (.setVariable name guid attributes size data)) :
    ∃ next, table.setVariable name guid attributes size data = .ok (.success, next) ∧
      next.Sound ∧
      (next.Stores (store.apply (.setVariable name guid attributes size data)) ↔
        table.DeletesLast (.setVariable name guid attributes size data)) := by
  rcases admitted with ⟨bounded, small⟩
  rw [VariableStore.apply] at bounded ⊢
  rw [DeletesLast]
  rcases sound.findVariable_cases name guid with
    ⟨missing, others⟩ | ⟨slot, inUse, located, found⟩
  · rw [setVariable_eq small missing data]
    cases stored : storedData attributes size data with
    | none =>
      refine ⟨table, rfl, sound, iff_of_true ?_ ?_⟩
      · rwa [Option.map_none, ← stores.none_of_absent others, Function.update_eq_self]
      · intro _ slot inUse located
        exact absurd located (others slot inUse)
    | some bytes =>
      rw [stored, Option.map_some] at bounded
      have room := stores.room sound others bounded
      have absent : table.Absent (VariableItem.key ⟨name, guid, attributes, size, bytes⟩) := others
      rcases addVariable_stores sound stores absent room with
        ⟨next, added, nextSound, nextStores⟩
      exact ⟨next, added, nextSound, iff_of_true nextStores (by simp)⟩
  · rw [setVariable_eq small found data]
    cases stored : storedData attributes size data with
    | none =>
      refine ⟨_, sound.deleteVariable_eq inUse, sound.drop_last, ?_⟩
      rw [Option.map_none, sound.stores_drop_last_iff stores inUse located]
      constructor
      · intro last _ other otherInUse otherLocated
        rw [sound.distinct other slot otherInUse inUse (otherLocated.trans located.symm)]
        exact last
      · intro deletesLast
        exact deletesLast rfl slot inUse located
    | some bytes =>
      have updated := updateVariable_stores sound stores inUse attributes size bytes
      rw [located] at updated
      exact ⟨_, rfl, updated.1, iff_of_true updated.2 (by simp)⟩

theorem step_exact {call : VariableCall} (sound : table.Sound) (stores : table.Stores store)
    (admitted : Admitted store call) :
    ∃ response next, table.step call = .ok (response, next) ∧ next.Sound ∧
      (next.Stores (store.apply call) ↔ table.DeletesLast call) := by
  cases call with
  | getVariable name guid =>
    have unchanged : table.Stores (store.apply (.getVariable name guid)) ↔
        table.DeletesLast (.getVariable name guid) := iff_of_true stores trivial
    rcases sound.findVariable_cases name guid with ⟨missing, _⟩ | ⟨slot, _, _, found⟩
    · exact ⟨_, table, by rw [step, Sound.getVariable_missing missing]; rfl, sound, unchanged⟩
    · exact ⟨_, table, by rw [step, Sound.getVariable_found found]; rfl, sound, unchanged⟩
  | setVariable name guid attributes size data =>
    rcases setVariable_exact sound stores admitted with ⟨next, returned, kept, exact⟩
    exact ⟨⟨.success, 0, 0, none⟩, next, by rw [step, returned]; rfl, kept, exact⟩

/-- Over every run with at most 64 live variables: each variable reads as last set, in
every state of the run, exactly if every deletion is of the last item in use. -/
theorem agrees_iff_deletes_last (calls : List VariableCall)
    (admitted : Machine.EveryStep trackedStep (fun state => Admitted state.2)
      (new, FiniteMap.empty) calls) :
    Machine.Always trackedStep (fun state => state.1.Agrees state.2)
        (new, FiniteMap.empty) calls ↔
      Machine.EveryStep trackedStep (fun state => state.1.DeletesLast)
        (new, FiniteMap.empty) calls := by
  have sound : new.Sound := ⟨Nat.zero_le _, fun _ _ none => absurd none (Nat.not_lt_zero _)⟩
  have stores : new.Stores FiniteMap.empty :=
    ⟨fun _ none => absurd none (Nat.not_lt_zero _), fun _ live => absurd rfl live⟩
  have agrees : new.Agrees FiniteMap.empty := sound.agrees_iff_stores.mpr stores
  apply Machine.always_iff_everyStep (fun state : Variable × VariableStore => state.1.Sound)
    (fun state => state.1.Agrees state.2) _ _ ?_ calls _ sound agrees admitted
  rintro ⟨table, store⟩ call sound agrees admitted
  rcases step_exact sound (sound.agrees_iff_stores.mp agrees) admitted with
    ⟨response, next, stepped, kept, exact⟩
  refine ⟨response, (next, store.apply call), ?_, kept, ?_⟩
  · rw [trackedStep, stepped]
    rfl
  · exact kept.agrees_iff_stores.trans exact

theorem admitted_of_length {bound : Nat} {calls : List VariableCall}
    (atMost : store.AtMost bound) (short : bound + calls.length ≤ maxVariableItem)
    (fit : ∀ call ∈ calls, call.Fits) (table : Variable) :
    Machine.EveryStep trackedStep (fun state => Admitted state.2) (table, store) calls := by
  induction calls generalizing bound store table with
  | nil => exact trivial
  | cons call rest induction =>
    rw [List.length_cons] at short
    have applied : (store.apply call).AtMost (bound + 1) := by
      cases call with
      | getVariable name guid => exact atMost.mono (Nat.le_succ bound)
      | setVariable name guid attributes size data => exact atMost.update _ _
    refine ⟨⟨applied.mono (by omega), fit call List.mem_cons_self⟩, ?_⟩
    rintro response ⟨next, store'⟩ stepped
    have followed : store' = store.apply call := by
      rw [trackedStep] at stepped
      cases outcome : table.step call with
      | error fault => simp [outcome] at stepped
      | ok result =>
        simp only [outcome, Exec.ok_bind] at stepped
        cases stepped
        rfl
    rw [followed]
    exact induction applied (by omega)
      (fun later member => fit later (List.mem_cons_of_mem call member)) next

/-! ## Two variables -/

def setLetter (letter : UInt8) : VariableCall :=
  .setVariable (Vector.replicate 32 letter) (Vector.replicate 16 0) 7 4
    (some (Vector.replicate maxVariableData letter))

def deleteLetter (letter : UInt8) : VariableCall :=
  .setVariable (Vector.replicate 32 letter) (Vector.replicate 16 0) 0 0 none

theorem letters_admitted (deleted : UInt8) :
    Machine.EveryStep trackedStep (fun state => Admitted state.2) (new, FiniteMap.empty)
      [setLetter 1, setLetter 2, deleteLetter deleted] := by
  apply admitted_of_length FiniteMap.empty_atMost (by simp [maxVariableItem])
  simp [VariableCall.Fits, setLetter, deleteLetter, maxVariableData]

/-- The second of two variables is deleted. -/
theorem agrees_iff_deletes_last_two_variables :
    Machine.Always trackedStep (fun state => state.1.Agrees state.2) (new, FiniteMap.empty)
        [setLetter 1, setLetter 2, deleteLetter 2] ↔
      Machine.EveryStep trackedStep (fun state => state.1.DeletesLast) (new, FiniteMap.empty)
        [setLetter 1, setLetter 2, deleteLetter 2] :=
  agrees_iff_deletes_last _ (letters_admitted 2)

/-- The first of two variables is deleted, and can still be read. -/
theorem not_agrees_first_deleted :
    Machine.EveryStep trackedStep (fun state => Admitted state.2) (new, FiniteMap.empty)
        [setLetter 1, setLetter 2, deleteLetter 1] ∧
      ¬Machine.Always trackedStep (fun state => state.1.Agrees state.2) (new, FiniteMap.empty)
        [setLetter 1, setLetter 2, deleteLetter 1] := by
  refine ⟨letters_admitted 1, ?_⟩
  intro always
  rcases always.final with ⟨responses, final, ran, agrees⟩
  have still : (Machine.run trackedStep (new, FiniteMap.empty)
        [setLetter 1, setLetter 2, deleteLetter 1]).map
      (fun outcome =>
        ((outcome.2.1.getVariable (Vector.replicate 32 1) (Vector.replicate 16 0)).map Prod.fst,
          outcome.2.2 (Vector.replicate 32 1, Vector.replicate 16 0))) =
      .ok (.ok .success, none) := by
    decide +kernel
  rw [ran] at still
  simp only [Except.map, Except.ok.injEq, Prod.mk.injEq] at still
  have reads := agrees (Vector.replicate 32 1) (Vector.replicate 16 0)
  rw [still.2, Reads] at reads
  rw [reads] at still
  exact absurd still.1 (by decide)

end Variable

end HypervisorFirmware.Efi
