import Mathlib.Data.List.FinRange
import HypervisorFirmware.Foundation.Execution

/-! # Loops over fixed tables

A loop over the first entries of a table of fixed size, with the bounds check of
every access. -/

namespace HypervisorFirmware.Table

variable {size : Nat} {State : Type u} {Result : Type v}

def slots (size count : Nat) : List (Fin size) := (List.finRange size).take count

/-- Visit `remaining` entries from `index` on, until a visit produces a result. An
index outside of the table panics. -/
def scanFrom (visit : Fin size → State → Exec (State ⊕ Result)) (finish : State → Result) :
    (remaining index : Nat) → State → Exec Result
  | 0, _, state => .ok (finish state)
  | remaining + 1, index, state =>
    if inside : index < size then
      match visit ⟨index, inside⟩ state with
      | .error fault => .error fault
      | .ok (.inl next) => scanFrom visit finish remaining (index + 1) next
      | .ok (.inr result) => .ok result
    else .error .panicked

def scan (visit : Fin size → State → Exec (State ⊕ Result)) (finish : State → Result)
    (count : Nat) (state : State) : Exec Result :=
  scanFrom visit finish count 0 state

/-! ## Entries in use -/

theorem mem_slots {count : Nat} {slot : Fin size} : slot ∈ slots size count ↔ slot.val < count := by
  rw [slots, List.mem_take_iff_getElem]
  constructor
  · rintro ⟨index, inside, rfl⟩
    simp only [List.length_finRange, Nat.lt_min] at inside
    simpa using inside.1
  · intro below
    exact ⟨slot.val, by simpa using below, by simp⟩

theorem nodup_slots (size count : Nat) : (slots size count).Nodup :=
  (List.nodup_finRange size).sublist (List.take_sublist _ _)

theorem length_slots {count : Nat} (fits : count ≤ size) : (slots size count).length = count := by
  rw [slots, List.length_take, List.length_finRange, Nat.min_eq_left fits]

theorem slots_succ {count : Nat} (inside : count < size) :
    slots size (count + 1) = slots size count ++ [⟨count, inside⟩] := by
  rw [slots, List.take_add_one, List.getElem?_eq_getElem (by simpa using inside)]
  simp [slots]

@[simp] theorem slots_zero (size : Nat) : slots size 0 = [] := rfl

theorem drop_finRange {index : Nat} (inside : index < size) :
    (List.finRange size).drop index = ⟨index, inside⟩ :: (List.finRange size).drop (index + 1) := by
  rw [List.drop_eq_getElem_cons (by simpa using inside)]
  simp

/-! ## What a loop comes to -/

/-- A loop that looks for the first entry with an outcome. -/
theorem scan_findSome {visit : Fin size → Unit → Exec (Unit ⊕ Option Result)}
    (outcome : Fin size → Option Result) {count : Nat} (fits : count ≤ size)
    (visits : ∀ slot : Fin size, slot.val < count →
      visit slot () = .ok (match outcome slot with
        | none => .inl ()
        | some result => .inr (some result))) :
    scan visit (fun _ => none) count () = .ok ((slots size count).findSome? outcome) := by
  suffices general : ∀ remaining index, index + remaining = count →
      scanFrom visit (fun _ => none) remaining index () =
        .ok ((((List.finRange size).drop index).take remaining).findSome? outcome) by
    exact general count 0 (Nat.zero_add count)
  intro remaining
  induction remaining with
  | zero => intro index _; simp [scanFrom]
  | succ remaining induction =>
    intro index total
    have inside : index < size := by omega
    rw [scanFrom, dif_pos inside, visits ⟨index, inside⟩ (show index < count by omega),
      drop_finRange inside, List.take_succ_cons, List.findSome?_cons]
    cases outcome ⟨index, inside⟩ with
    | none => exact induction (index + 1) (by omega)
    | some result => rfl

/-- A loop that visits all entries, by the state it is in before each of them. -/
theorem scan_states {visit : Fin size → State → Exec (State ⊕ Result)}
    {finish : State → Result} (stateAt : Nat → State) {count : Nat} (fits : count ≤ size)
    (visits : ∀ slot : Fin size, slot.val < count →
      visit slot (stateAt slot.val) = .ok (.inl (stateAt (slot.val + 1)))) :
    scan visit finish count (stateAt 0) = .ok (finish (stateAt count)) := by
  suffices general : ∀ remaining index, index + remaining = count →
      scanFrom visit finish remaining index (stateAt index) = .ok (finish (stateAt count)) by
    exact general count 0 (Nat.zero_add count)
  intro remaining
  induction remaining with
  | zero =>
    intro index total
    rw [scanFrom, ← total, Nat.add_zero]
  | succ remaining induction =>
    intro index total
    have inside : index < size := by omega
    rw [scanFrom, dif_pos inside, visits ⟨index, inside⟩ (show index < count by omega)]
    exact induction (index + 1) (by omega)

end HypervisorFirmware.Table
