import Mathlib.Data.List.Induction

/-! # First matches in a list

Searching a list for the first element with a property and rewriting the list
around it, or for the first of the elements with the highest score. -/

namespace HypervisorFirmware.Selection

variable {α : Type u}

/-- Put `pieces` in place of the first element that satisfies `wanted`. -/
def replaceFirst (wanted : α → Bool) (pieces : List α) : List α → List α
  | [] => []
  | head :: tail =>
    if wanted head then pieces ++ tail
    else head :: replaceFirst wanted pieces tail

variable {wanted : α → Bool} {score : α → Option Nat}

theorem replaceFirst_split {before after : List α} {found : α}
    (pieces : List α) (earlier : ∀ other ∈ before, wanted other = false)
    (matched : wanted found = true) :
    replaceFirst wanted pieces (before ++ found :: after) = before ++ pieces ++ after := by
  induction before with
  | nil => simp [replaceFirst, matched]
  | cons head tail induction =>
    have headFails := earlier head List.mem_cons_self
    have tailFails := fun other member =>
      earlier other (List.mem_cons_of_mem head member)
    simp [replaceFirst, headFails, induction tailFails]

/-- The first match splits its list into what fails before it and the rest. -/
theorem split_of_find?_eq_some {values : List α} {found : α}
    (search : values.find? wanted = some found) :
    ∃ before after, values = before ++ found :: after ∧
      (∀ other ∈ before, wanted other = false) ∧ wanted found = true := by
  rcases List.find?_eq_some_iff_append.mp search with
    ⟨matched, before, after, equal, earlier⟩
  refine ⟨before, after, equal, ?_, matched⟩
  intro other member
  simpa using earlier other member

theorem find?_key {β : Type} [DecidableEq β] {key : α → β} {values : List α} {value : α}
    (distinct : (values.map key).Nodup) (member : value ∈ values) :
    values.find? (fun other => key other == key value) = some value := by
  rcases List.append_of_mem member with ⟨before, after, rfl⟩
  rw [List.map_append, List.map_cons] at distinct
  refine List.find?_eq_some_iff_append.mpr ⟨by simp, before, after, rfl, fun other early => ?_⟩
  have apart := (List.nodup_append.mp distinct).2.2 _ (List.mem_map_of_mem early) _
    List.mem_cons_self
  simpa using apart

/-- A relation between each element and those before it holds pairwise. -/
theorem pairwise_of_split {Relation : α → α → Prop} {values : List α}
    (related : ∀ before value after, values = before ++ value :: after →
      ∀ earlier ∈ before, Relation earlier value) :
    values.Pairwise Relation := by
  induction values with
  | nil => exact .nil
  | cons head tail induction =>
    apply List.Pairwise.cons
    · intro later member
      rcases List.append_of_mem member with ⟨before, after, split⟩
      exact related (head :: before) later after (by rw [split]; rfl) head List.mem_cons_self
    · apply induction
      intro before value after split earlier member
      exact related (head :: before) value after (by rw [split]; rfl) earlier
        (List.mem_cons_of_mem _ member)

/-! ## The first of the best -/

/-- Keep the best element so far, or take a new one that has a higher score. -/
def better (score : α → Option Nat) (best : Option (Nat × α)) (value : α) :
    Option (Nat × α) :=
  match score value, best with
  | none, best => best
  | some new, none => some (new, value)
  | some new, some (old, kept) => if old < new then some (new, value) else some (old, kept)

theorem better_of_none {value : α} (best : Option (Nat × α))
    (scored : score value = none) : better score best value = best := by
  simp [better, scored]

theorem better_of_some {value : α} {new : Nat}
    (best : Option (Nat × α)) (scored : score value = some new)
    [Decidable (∀ kept ∈ best, kept.1 < new)] :
    better score best value = if ∀ kept ∈ best, kept.1 < new then some (new, value) else best := by
  cases best with
  | none => simp [better, scored]
  | some kept => simp [better, scored]

section

variable (score : α → Option Nat) (values : List α)

/-- The first of the elements with the highest score. -/
def firstBest : Option (Nat × α) :=
  values.foldl (better score) none

theorem firstBest_concat (last : α) :
    firstBest score (values ++ [last]) = better score (firstBest score values) last := by
  simp [firstBest]

/-- `best` is the outcome of the search among `values`. -/
def IsFirstBest : Option (Nat × α) → Prop
  | none => ∀ value ∈ values, score value = none
  | some (high, found) => ∃ before after, values = before ++ found :: after ∧
      score found = some high ∧ (∀ value ∈ before, ∀ other ∈ score value, other < high) ∧
      (∀ value ∈ after, ∀ other ∈ score value, other ≤ high)

end

theorem IsFirstBest.le {values : List α} {best : Nat × α}
    (isBest : IsFirstBest score values (some best)) {value : α} (member : value ∈ values)
    {other : Nat} (scores : other ∈ score value) : other ≤ best.1 := by
  rcases isBest with ⟨before, after, split, high, lower, notHigher⟩
  rw [split] at member
  rcases List.mem_append.mp member with inBefore | inRest
  · exact Nat.le_of_lt (lower value inBefore other scores)
  · rcases List.mem_cons.mp inRest with rfl | inAfter
    · rw [high] at scores
      cases scores
      exact Nat.le_refl _
    · exact notHigher value inAfter other scores

theorem IsFirstBest.better {values : List α}
    {best : Option (Nat × α)} (isBest : IsFirstBest score values best) (last : α) :
    IsFirstBest score (values ++ [last]) (Selection.better score best last) := by
  cases scored : score last with
  | none =>
    rw [better_of_none best scored]
    cases best with
    | none =>
      intro value member
      rcases List.mem_append.mp member with earlier | new
      · exact isBest value earlier
      · rw [List.mem_singleton.mp new, scored]
    | some kept =>
      rcases isBest with ⟨before, after, split, high, lower, notHigher⟩
      refine ⟨before, after ++ [last], by rw [split]; simp, high, lower, ?_⟩
      intro value member other scores
      rcases List.mem_append.mp member with earlier | new
      · exact notHigher value earlier other scores
      · rw [List.mem_singleton.mp new, scored] at scores
        cases scores
  | some new =>
    classical
    rw [better_of_some best scored]
    split_ifs with higher
    · refine ⟨values, [], rfl, scored, ?_, fun _ impossible => nomatch impossible⟩
      intro value member other scores
      cases best with
      | none =>
        rw [isBest value member] at scores
        cases scores
      | some kept =>
        exact Nat.lt_of_le_of_lt (isBest.le member scores) (higher kept rfl)
    · cases best with
      | none => simp at higher
      | some kept =>
        rcases isBest with ⟨before, after, split, high, lower, notHigher⟩
        refine ⟨before, after ++ [last], by rw [split]; simp, high, lower, ?_⟩
        intro value member other scores
        rcases List.mem_append.mp member with earlier | isLast
        · exact notHigher value earlier other scores
        · rw [List.mem_singleton.mp isLast, scored] at scores
          cases scores
          exact Nat.le_of_not_lt (by simpa using higher)

theorem isFirstBest_firstBest (score : α → Option Nat) (values : List α) :
    IsFirstBest score values (firstBest score values) := by
  induction values using List.reverseRecOn with
  | nil =>
    intro value member
    cases member
  | append_singleton values last induction =>
    rw [firstBest_concat]
    exact induction.better last

/-! ## The last match -/

/-- The number of the last element that satisfies `wanted`, counted from one, or zero
if there is none. -/
def lastMatch (wanted : α → Bool) : List α → Nat
  | [] => 0
  | head :: tail =>
    match lastMatch wanted tail with
    | 0 => if wanted head then 1 else 0
    | later + 1 => later + 2

variable (wanted : α → Bool) (values : List α)

theorem lastMatch_concat (last : α) :
    lastMatch wanted (values ++ [last]) =
      if wanted last then values.length + 1 else lastMatch wanted values := by
  induction values with
  | nil => rfl
  | cons head tail induction =>
    rw [List.cons_append, lastMatch, induction, lastMatch]
    by_cases matched : wanted last = true
    · simp [matched]
    · simp [matched]

theorem lastMatch_eq_zero_iff :
    lastMatch wanted values = 0 ↔ ∀ value ∈ values, wanted value = false := by
  induction values with
  | nil => simp [lastMatch]
  | cons head tail induction =>
    rw [List.forall_mem_cons, ← induction, lastMatch]
    cases lastMatch wanted tail with
    | zero => cases wanted head <;> simp
    | succ later => simp

theorem lastMatch_eq_succ_iff (index : Nat) :
    lastMatch wanted values = index + 1 ↔
      ∃ found, values[index]? = some found ∧ wanted found = true ∧
        ∀ later ∈ values.drop (index + 1), wanted later = false := by
  induction values generalizing index with
  | nil => simp [lastMatch]
  | cons head tail induction =>
    have none := lastMatch_eq_zero_iff wanted tail
    rw [lastMatch]
    cases index with
    | zero =>
      simp only [List.getElem?_cons_zero, Option.some.injEq, exists_eq_left',
        List.drop_succ_cons, List.drop_zero, ← none]
      cases lastMatch wanted tail with
      | zero => simp
      | succ later => simp
    | succ index =>
      rw [List.getElem?_cons_succ, List.drop_succ_cons, ← induction index]
      cases lastMatch wanted tail with
      | zero =>
        cases wanted head <;> simp
      | succ later => simp

end HypervisorFirmware.Selection
