import Mathlib.Data.List.Basic
import Mathlib.Data.List.Pairwise
import Mathlib.Tactic.SplitIfs

/-! # Labelled spans

Half-open intervals of natural numbers that carry a label, and ordered lists
of them read as a partial function from points to labels. Empty spans are
allowed: they contain no point and may share their position with others. -/

namespace HypervisorFirmware

theorem forall_mem_replaced {α : Type u} {Holds : α → Prop} {before pieces after : List α}
    {old : α} (whole : ∀ element ∈ before ++ old :: after, Holds element)
    (new : ∀ element ∈ pieces, Holds element) :
    ∀ element ∈ before ++ pieces ++ after, Holds element := by
  simp only [List.forall_mem_append, List.forall_mem_cons] at whole ⊢
  exact ⟨⟨whole.1, new⟩, whole.2.2⟩

structure Span (Label : Type u) where
  lower : Nat
  upper : Nat
  label : Label
  ordered : lower ≤ upper

namespace Span

variable {Label : Type u}

def Contains (span : Span Label) (point : Nat) : Prop :=
  span.lower ≤ point ∧ point < span.upper

instance (span : Span Label) (point : Nat) : Decidable (span.Contains point) :=
  inferInstanceAs (Decidable (_ ∧ _))

def Ascending (spans : List (Span Label)) : Prop :=
  spans.Pairwise fun left right => left.upper ≤ right.lower

def Covers (spans : List (Span Label)) (point : Nat) : Prop :=
  ∃ span ∈ spans, span.Contains point

def labelAt : List (Span Label) → Nat → Option Label
  | [], _ => none
  | span :: rest, point =>
    if span.Contains point then some span.label else labelAt rest point

/-- The spans follow one another without a gap from `lower` to `upper`. -/
def Tiles : Nat → Nat → List (Span Label) → Prop
  | lower, upper, [] => lower = upper
  | lower, upper, span :: rest => span.lower = lower ∧ Tiles span.upper upper rest

variable {spans before : List (Span Label)} {upper : Nat}

theorem Ascending.disjoint (ascending : Ascending spans) :
    spans.Pairwise fun left right =>
      ∀ point, ¬(left.Contains point ∧ right.Contains point) := by
  apply List.Pairwise.imp _ ascending
  intro left right before point both
  have leftUpper := both.1.2
  have rightLower := both.2.1
  omega

/-! ## Points and labels -/

theorem labelAt_append (first second : List (Span Label)) (point : Nat) :
    labelAt (first ++ second) point = (labelAt first point).or (labelAt second point) := by
  induction first with
  | nil => rfl
  | cons span rest induction =>
    simp only [List.cons_append, labelAt]
    split_ifs with inside
    · rfl
    · exact induction

theorem labelAt_eq_none_iff (spans : List (Span Label)) (point : Nat) :
    labelAt spans point = none ↔ ¬Covers spans point := by
  induction spans with
  | nil => simp [labelAt, Covers]
  | cons span rest induction =>
    simp only [labelAt]
    split_ifs with inside
    · simp [Covers, inside]
    · rw [induction]
      simp [Covers, inside]

/-- In an ascending list the label of a point is the label of any span that
contains it. -/
theorem labelAt_eq_some_of_mem
    (ascending : Ascending spans) {span : Span Label} (member : span ∈ spans)
    {point : Nat} (inside : span.Contains point) :
    labelAt spans point = some span.label := by
  induction spans with
  | nil => cases member
  | cons head rest induction =>
    have parts := List.pairwise_cons.mp ascending
    rcases List.mem_cons.mp member with equal | later
    · subst equal
      simp [labelAt, inside]
    · have outside : ¬head.Contains point := by
        intro headInside
        have separated := parts.1 span later
        have headUpper := headInside.2
        have spanLower := inside.1
        omega
      simp only [labelAt, outside, if_false]
      exact induction parts.2 later

theorem exists_of_labelAt_eq_some {point : Nat}
    {label : Label} (found : labelAt spans point = some label) :
    ∃ span ∈ spans, span.Contains point ∧ span.label = label := by
  induction spans with
  | nil => simp [labelAt] at found
  | cons span rest induction =>
    simp only [labelAt] at found
    split_ifs at found with inside
    · exact ⟨span, List.mem_cons_self, inside, Option.some.inj found⟩
    · rcases induction found with ⟨later, member, properties⟩
      exact ⟨later, List.mem_cons_of_mem _ member, properties⟩

/-! ## Tilings -/

section

variable {lower : Nat} {pieces : List (Span Label)} (tiles : Tiles lower upper pieces)

include tiles

theorem Tiles.le : lower ≤ upper := by
  induction pieces generalizing lower with
  | nil => exact Nat.le_of_eq tiles
  | cons piece rest induction =>
    have later := induction tiles.2
    have first := tiles.1
    have own := piece.ordered
    omega

theorem Tiles.bounds {piece : Span Label} (member : piece ∈ pieces) :
    lower ≤ piece.lower ∧ piece.upper ≤ upper := by
  induction pieces generalizing lower with
  | nil => cases member
  | cons head rest induction =>
    have first := tiles.1
    have own := head.ordered
    rcases List.mem_cons.mp member with equal | later
    · subst equal
      exact ⟨Nat.le_of_eq first.symm, Tiles.le tiles.2⟩
    · have inner := induction tiles.2 later
      omega

theorem Tiles.ascending : Ascending pieces := by
  induction pieces generalizing lower with
  | nil => exact .nil
  | cons head rest induction =>
    apply List.Pairwise.cons
    · intro later member
      exact (Tiles.bounds tiles.2 member).1
    · exact induction tiles.2

theorem Tiles.covers_iff (point : Nat) : Covers pieces point ↔ lower ≤ point ∧ point < upper := by
  induction pieces generalizing lower with
  | nil =>
    have equal : lower = upper := tiles
    simp [Covers]
    omega
  | cons head rest induction =>
    have first := tiles.1
    have own := head.ordered
    have remaining := Tiles.le tiles.2
    have later := induction tiles.2
    have unfolded : Covers (head :: rest) point ↔
        head.Contains point ∨ Covers rest point := by simp [Covers]
    rw [unfolded, later, Contains]
    omega

end

variable {pieces after : List (Span Label)} {span : Span Label}
  (ascending : Ascending (before ++ span :: after)) (tiles : Tiles span.lower span.upper pieces)

include ascending tiles

/-- Replacing a span by a tiling of it keeps the list ascending. -/
theorem Ascending.replace : Ascending (before ++ pieces ++ after) := by
  rw [Ascending, List.pairwise_append] at ascending
  rcases ascending with ⟨beforeAscending, restAscending, separated⟩
  have rest := List.pairwise_cons.mp restAscending
  rw [Ascending, List.append_assoc, List.pairwise_append]
  refine ⟨beforeAscending, ?_, ?_⟩
  · rw [List.pairwise_append]
    refine ⟨tiles.ascending, rest.2, ?_⟩
    intro piece pieceMember later laterMember
    exact Nat.le_trans (tiles.bounds pieceMember).2 (rest.1 later laterMember)
  · intro earlier earlierMember other otherMember
    rcases List.mem_append.mp otherMember with pieceMember | laterMember
    · exact Nat.le_trans (separated earlier earlierMember span List.mem_cons_self)
        (tiles.bounds pieceMember).1
    · exact separated earlier earlierMember other (List.mem_cons_of_mem _ laterMember)

/-- Replacing a span by a tiling of it changes labels only inside the span. -/
theorem labelAt_replace (point : Nat) :
    labelAt (before ++ pieces ++ after) point =
      if span.Contains point then labelAt pieces point
      else labelAt (before ++ span :: after) point := by
  rw [Ascending, List.pairwise_append] at ascending
  rcases ascending with ⟨_, restAscending, separated⟩
  have rest := List.pairwise_cons.mp restAscending
  rw [List.append_assoc, labelAt_append, labelAt_append, labelAt_append]
  split_ifs with inside
  · have notBefore : labelAt before point = none := by
      rw [labelAt_eq_none_iff]
      intro covered
      rcases covered with ⟨earlier, member, contains⟩
      have bound := separated earlier member span List.mem_cons_self
      have upper := contains.2
      have lower := inside.1
      omega
    have notAfter : labelAt after point = none := by
      rw [labelAt_eq_none_iff]
      intro covered
      rcases covered with ⟨later, member, contains⟩
      have bound := rest.1 later member
      have upper := inside.2
      have lower := contains.1
      omega
    rw [notBefore, notAfter]
    simp
  · have notPieces : labelAt pieces point = none := by
      rw [labelAt_eq_none_iff, tiles.covers_iff]
      exact inside
    rw [notPieces, labelAt, if_neg inside]
    simp

end Span

end HypervisorFirmware
