import Mathlib.Data.List.Nodup
import HypervisorFirmware.Foundation.Execution

/-! # Index-linked lists

Lists threaded through a table by a successor function. A chain records the
slots that are visited in order; insertion, removal and extension are stated
for any successor function that agrees with the old one elsewhere. -/

namespace HypervisorFirmware

/-- Following `next` from `start` visits exactly these slots and then ends. -/
inductive Chain {Slot : Type u} (next : Slot → Option Slot) :
    Option Slot → List Slot → Prop
  | nil : Chain next none []
  | cons {slot : Slot} {rest : List Slot} :
      Chain next (next slot) rest → Chain next (some slot) (slot :: rest)

namespace Chain

variable {Slot : Type u} {next next' : Slot → Option Slot}
  {start : Option Slot} {slots : List Slot}

theorem start_eq_head? (chain : Chain next start slots) : start = slots.head? := by
  cases chain <;> rfl

theorem congr (chain : Chain next start slots)
    (agree : ∀ slot ∈ slots, next' slot = next slot) : Chain next' start slots := by
  induction chain with
  | nil => exact .nil
  | @cons slot rest _ induction =>
    apply Chain.cons
    rw [agree slot List.mem_cons_self]
    exact induction fun later member => agree later (List.mem_cons_of_mem _ member)

variable {before : List Slot} {slot : Slot}

/-- The part of a chain that starts at one of its slots is itself a chain. -/
theorem suffix {after : List Slot} (chain : Chain next start (before ++ slot :: after)) :
    Chain next (next slot) after := by
  induction before generalizing start with
  | nil =>
    cases chain with
    | cons rest => exact rest
  | cons head before induction =>
    cases chain with
    | cons rest => exact induction rest

theorem next_eq_head? {after : List Slot} (chain : Chain next start (before ++ slot :: after)) :
    next slot = after.head? :=
  chain.suffix.start_eq_head?

/-- Replace everything after one slot: the successor function may only change
at that slot and outside the part that is kept. -/
theorem replaceSuffix {after after' : List Slot}
    (chain : Chain next start (before ++ slot :: after))
    (agree : ∀ kept ∈ before, next' kept = next kept)
    (rest : Chain next' (next' slot) after') :
    Chain next' start (before ++ slot :: after') := by
  induction before generalizing start with
  | nil =>
    cases chain with
    | cons _ => exact .cons rest
  | cons head before induction =>
    cases chain with
    | cons tail =>
      apply Chain.cons
      rw [agree head List.mem_cons_self]
      exact induction tail fun kept member =>
        agree kept (List.mem_cons_of_mem _ member)

/-- Link a fresh slot in directly after an existing one. -/
theorem insertAfter {after : List Slot} {fresh : Slot}
    (chain : Chain next start (before ++ slot :: after))
    (nodup : (before ++ slot :: after).Nodup)
    (notMember : fresh ∉ before ++ slot :: after)
    (atSlot : next' slot = some fresh) (atFresh : next' fresh = next slot)
    (elsewhere : ∀ other, other ≠ slot → other ≠ fresh → next' other = next other) :
    Chain next' start (before ++ slot :: fresh :: after) := by
  have parts := List.nodup_append.mp nodup
  have slotFresh := List.nodup_cons.mp parts.2.1
  apply chain.replaceSuffix
  · intro kept member
    apply elsewhere kept
    · exact parts.2.2 kept member slot List.mem_cons_self
    · rintro rfl
      exact notMember (List.mem_append_left _ member)
  · rw [atSlot]
    apply Chain.cons
    rw [atFresh]
    apply chain.suffix.congr
    intro later member
    apply elsewhere later
    · rintro rfl
      exact slotFresh.1 member
    · rintro rfl
      exact notMember (List.mem_append_right _ (List.mem_cons_of_mem _ member))

/-- Unlink the slot that directly follows another one. -/
theorem removeAfter {after : List Slot} {removed : Slot}
    (chain : Chain next start (before ++ slot :: removed :: after))
    (nodup : (before ++ slot :: removed :: after).Nodup)
    (atSlot : next' slot = next removed)
    (elsewhere : ∀ other, other ≠ slot → next' other = next other) :
    Chain next' start (before ++ slot :: after) := by
  have parts := List.nodup_append.mp nodup
  have slotFresh := List.nodup_cons.mp parts.2.1
  apply chain.replaceSuffix
  · intro kept member
    exact elsewhere kept (parts.2.2 kept member slot List.mem_cons_self)
  · have tail : Chain next (next removed) after := by
      have reassociated : before ++ slot :: removed :: after =
          (before ++ [slot]) ++ removed :: after := by simp
      rw [reassociated] at chain
      exact chain.suffix
    rw [atSlot]
    apply tail.congr
    intro later member
    apply elsewhere later
    rintro rfl
    exact slotFresh.1 (List.mem_cons_of_mem _ member)

/-! ## Walking a chain -/

section Walk

variable {State : Type v} {Result : Type w}

/-- The outcome of visiting the slots in order: `visit` may stop the walk, and
`finish` turns the accumulated state into a result at the end. -/
def visitAll (visit : Slot → State → State ⊕ Result) (finish : State → Result) :
    List Slot → State → Result
  | [], state => finish state
  | slot :: rest, state =>
    match visit slot state with
    | .inl next => visitAll visit finish rest next
    | .inr result => result

/-- The loop `while cur != None { visit(cur); cur = next(cur) }`. -/
def walk (next : Slot → Option Slot) (visit : Slot → State → State ⊕ Result)
    (finish : State → Result) (fuel : Nat) (start : Option Slot) (state : State) :
    Exec Result :=
  Loop.run (fun (position : Option Slot × State) =>
    match position with
    | (none, state) => .ok (.inr (finish state))
    | (some slot, state) =>
      match visit slot state with
      | .inl state => .ok (.inl (next slot, state))
      | .inr result => .ok (.inr result)) fuel (start, state)

/-- A walk along a chain ends, and computes what visiting its slots computes. -/
theorem walk_eq_visitAll (chain : Chain next start slots)
    (visit : Slot → State → State ⊕ Result) (finish : State → Result)
    (fuel : Nat) (enough : slots.length < fuel) (state : State) :
    walk next visit finish fuel start state = .ok (visitAll visit finish slots state) := by
  unfold walk
  induction chain generalizing fuel state with
  | nil =>
    cases fuel with
    | zero => simp at enough
    | succ fuel => simp [Loop.run, visitAll]
  | @cons slot rest _ induction =>
    cases fuel with
    | zero => simp at enough
    | succ fuel =>
      simp only [List.length_cons] at enough
      rw [Loop.run, visitAll]
      cases visited : visit slot state with
      | inl later =>
        simp only [visited]
        exact induction fuel (by omega) later
      | inr result => simp [visited]

/-- A walk that only searches returns the first slot with the property. -/
theorem visitAll_find? (wanted : Slot → Bool) (slots : List Slot) :
    visitAll (fun slot (_ : Unit) => if wanted slot then .inr (some slot) else .inl ())
      (fun _ => none) slots () = slots.find? wanted := by
  induction slots with
  | nil => rfl
  | cons slot rest induction =>
    rw [visitAll]
    cases matched : wanted slot <;> simp [matched, induction]

theorem visitAll_last (slots : List Slot) (initial : Slot) :
    visitAll (fun slot _ => (.inl slot : Slot ⊕ Slot)) id slots initial =
      slots.getLastD initial := by
  induction slots generalizing initial with
  | nil => rfl
  | cons slot rest induction =>
    rw [visitAll, List.getLastD_cons]
    exact induction slot

theorem visitAll_count (slots : List Slot) (initial : Nat) :
    visitAll (fun _ count => (.inl (count + 1) : Nat ⊕ Nat)) id slots initial =
      initial + slots.length := by
  induction slots generalizing initial with
  | nil => rfl
  | cons slot rest induction =>
    rw [visitAll]
    simp only [induction, List.length_cons]
    omega

/-- A walk that writes one value for each slot fills the buffer from its
starting position on. -/
theorem visitAll_fill {Value : Type v} (value : Slot → Value) (slots : List Slot)
    (position : Nat) (out : List Value) (fits : position + slots.length ≤ out.length) :
    visitAll
      (fun slot (state : Nat × List Value) =>
        (.inl (state.1 + 1, state.2.set state.1 (value slot)) :
          (Nat × List Value) ⊕ (Nat × List Value)))
      id slots (position, out) =
        (position + slots.length,
          out.take position ++ slots.map value ++ out.drop (position + slots.length)) := by
  induction slots generalizing position out with
  | nil => simp [visitAll]
  | cons slot rest induction =>
    simp only [List.length_cons] at fits
    have inside : position < out.length := by omega
    have written : out.set position (value slot) =
        out.take position ++ value slot :: out.drop (position + 1) := by
      simp [List.set_eq_take_append_cons_drop, inside]
    have taken : (out.take position).length = position := by
      simp
      omega
    have before : (out.set position (value slot)).take (position + 1) =
        out.take position ++ [value slot] := by
      rw [written, List.take_append, taken, List.take_of_length_le (by omega)]
      simp
    have after : (out.set position (value slot)).drop (position + 1 + rest.length) =
        out.drop (position + (rest.length + 1)) := by
      rw [List.drop_set_of_lt (by omega)]
      congr 1
      omega
    rw [visitAll]
    simp only
    rw [induction (position + 1) _ (by simp; omega), before, after]
    simp only [List.length_cons, List.map_cons, List.append_assoc, List.cons_append,
      List.nil_append]
    congr 1
    omega

end Walk

end Chain

end HypervisorFirmware
