import Mathlib.Data.List.Basic
import Mathlib.Data.List.DropRight
import HypervisorFirmware.Foundation.Execution

/-! # Texts

The functions of Rust's `str` on lists of characters. Nothing here depends on the program
being modelled. -/

namespace HypervisorFirmware.Text

/-- The characters with the property `White_Space`. -/
def isWhitespace (character : Char) : Bool :=
  let code := character.toNat
  decide (9 ≤ code ∧ code ≤ 13 ∨ code = 0x20 ∨ code = 0x85 ∨ code = 0xa0 ∨ code = 0x1680 ∨
    0x2000 ≤ code ∧ code ≤ 0x200a ∨ code = 0x2028 ∨ code = 0x2029 ∨ code = 0x202f ∨
    code = 0x205f ∨ code = 0x3000)

def trimMatches (Matches : Char → Bool) (text : List Char) : List Char :=
  (text.dropWhile Matches).rdropWhile Matches

def trim (text : List Char) : List Char := trimMatches isWhitespace text

/-- `split_terminator` for a newline: behind the last newline there is no line, unless
there is something. -/
def splitTerminator (text : List Char) : List (List Char) :=
  let parts := text.splitOn '\n'
  if parts.getLast? = some [] then parts.dropLast else parts

def withoutReturn (line : List Char) : List Char :=
  if line.getLast? = some '\r' then line.dropLast else line

def lines (text : List Char) : List (List Char) := (splitTerminator text).map withoutReturn

/-! ## Trimming -/

/-- What is left of a text has other characters at its ends, and what was removed is on
both sides of it. -/
theorem trimMatches_eq_iff {Matches : Char → Bool} {text value : List Char} :
    trimMatches Matches text = value ↔
      (∀ first ∈ value.head?, ¬Matches first) ∧ (∀ last ∈ value.getLast?, ¬Matches last) ∧
        ∃ before after, text = before ++ value ++ after ∧
          (∀ character ∈ before, Matches character) ∧ ∀ character ∈ after, Matches character := by
  constructor
  · rintro rfl
    refine ⟨?_, ?_, text.takeWhile Matches, (text.dropWhile Matches).rtakeWhile Matches, ?_,
      fun character => List.mem_takeWhile_imp, fun character => List.mem_rtakeWhile_imp⟩
    · intro first here
      rcases List.rdropWhile_prefix Matches (text.dropWhile Matches) with ⟨removed, same⟩
      have start : (text.dropWhile Matches).head? = some first := by
        rw [← same, List.head?_append, ← trimMatches, Option.mem_def.mp here, Option.some_or]
      have other := List.head?_dropWhile_not Matches text
      rw [start] at other
      simpa using other
    · intro last here
      rcases List.mem_getLast?_eq_getLast here with ⟨some, rfl⟩
      exact List.rdropWhile_last_not Matches _ some
    · rw [List.append_assoc, trimMatches, List.rdropWhile_append_rtakeWhile,
        List.takeWhile_append_dropWhile]
  · rintro ⟨first, last, before, after, rfl, early, late⟩
    rw [trimMatches, List.append_assoc, List.dropWhile_append_of_pos early]
    cases value with
    | nil =>
      rw [List.nil_append, List.dropWhile_eq_nil_iff.mpr late, List.rdropWhile_nil]
    | cons head rest =>
      have kept : (head :: rest ++ after).dropWhile Matches = head :: rest ++ after := by
        rw [List.cons_append, List.dropWhile_cons_of_neg (first head rfl)]
      have whole : (head :: rest).rdropWhile Matches = head :: rest :=
        List.rdropWhile_eq_self_iff.mpr fun some => last _ (List.getLast?_eq_getLast_of_ne_nil some)
      have removed : ∀ character ∈ after.reverse, Matches character :=
        fun character member => late character (List.mem_reverse.mp member)
      rw [kept, List.rdropWhile, List.reverse_append, List.dropWhile_append_of_pos removed]
      exact whole

/-! ## Lines -/

/-- A line that is ended does not depend on what is behind it. -/
theorem lines_append (text rest : List Char) (one : '\n' ∉ rest) (some : rest ≠ []) :
    lines (text ++ '\n' :: rest) = lines (text ++ ['\n']) ++ [withoutReturn rest] := by
  have whole : (text ++ '\n' :: rest).splitOn '\n' = text.splitOn '\n' ++ [rest] := by
    rw [List.splitOn_append_cons_self, List.splitOn_eq_singleton one]
  have ended : (text ++ ['\n']).splitOn '\n' = text.splitOn '\n' ++ [[]] := by
    rw [List.splitOn_append_cons_self]
    rfl
  have kept : splitTerminator (text ++ '\n' :: rest) = text.splitOn '\n' ++ [rest] := by
    rw [splitTerminator, whole, List.getLast?_append]
    simp [some]
  have dropped : splitTerminator (text ++ ['\n']) = text.splitOn '\n' := by
    rw [splitTerminator, ended]
    simp
  rw [lines, lines, kept, dropped, List.map_append, List.map_singleton]

end HypervisorFirmware.Text
