import Mathlib.Data.List.Infix

/-! # Texts of codewords

Where no codeword is the beginning of another one, a text has only one reading, and
so has the beginning of a text. -/

namespace HypervisorFirmware.Codeword

variable {α : Type u}

/-- No word is empty, and no word begins with another one. -/
structure PrefixFree (Word : List α → Prop) : Prop where
  nonempty : ∀ word, Word word → word ≠ []
  unique : ∀ first second, Word first → Word second → first <+: second → first = second

variable {Word : List α → Prop}

/-- A text of words that begins another one consists of its first words. -/
theorem PrefixFree.words_of_text (code : PrefixFree Word) {first second : List (List α)}
    (firstWords : ∀ word ∈ first, Word word) (secondWords : ∀ word ∈ second, Word word)
    (texts : first.flatten <+: second.flatten) : first <+: second := by
  induction first generalizing second with
  | nil => exact List.nil_prefix
  | cons word rest induction =>
    have isWord := firstWords word List.mem_cons_self
    cases second with
    | nil =>
      have empty := List.prefix_nil.mp texts
      rw [List.flatten_cons, List.append_eq_nil_iff] at empty
      exact absurd empty.1 (code.nonempty word isWord)
    | cons other others =>
      have isOther := secondWords other List.mem_cons_self
      rw [List.flatten_cons, List.flatten_cons] at texts
      have same : word = other := by
        rcases List.prefix_or_prefix_of_prefix
          ((List.prefix_append word rest.flatten).trans texts)
          (List.prefix_append other others.flatten) with begins | begins
        · exact code.unique word other isWord isOther begins
        · exact (code.unique other word isOther isWord begins).symm
      subst same
      rw [List.prefix_append_right_inj] at texts
      rw [List.prefix_cons_inj]
      exact induction (fun word member => firstWords word (List.mem_cons_of_mem _ member))
        (fun word member => secondWords word (List.mem_cons_of_mem _ member)) texts

/-- Of two beginnings of a text, the one that is not longer begins the other. -/
theorem PrefixFree.words_of_length_le (code : PrefixFree Word)
    {first second text : List (List α)} (textWords : ∀ word ∈ text, Word word)
    (firstBegins : first <+: text) (secondBegins : second <+: text)
    (shorter : first.flatten.length ≤ second.flatten.length) : first <+: second := by
  apply code.words_of_text
  · exact fun word member => textWords word (firstBegins.subset member)
  · exact fun word member => textWords word (secondBegins.subset member)
  · exact List.prefix_of_prefix_length_le firstBegins.flatten secondBegins.flatten shorter

end HypervisorFirmware.Codeword
