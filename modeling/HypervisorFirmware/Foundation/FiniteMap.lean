import Mathlib.Data.List.Perm.Subperm
import Mathlib.Logic.Function.Basic

/-! # Finite maps

Partial functions from keys to values, with a bound on the number of keys that
have a value. -/

namespace HypervisorFirmware

abbrev FiniteMap (Key : Type u) (Value : Type v) := Key → Option Value

namespace FiniteMap

variable {Key : Type u} {Value : Type v}

def empty : FiniteMap Key Value := fun _ => none

/-- At most `bound` keys have a value. -/
def AtMost (bound : Nat) (map : FiniteMap Key Value) : Prop :=
  ∃ keys : List Key, keys.length ≤ bound ∧ ∀ key, map key ≠ none → key ∈ keys

theorem empty_atMost : (empty : FiniteMap Key Value).AtMost 0 :=
  ⟨[], Nat.le_refl 0, fun _ live => absurd rfl live⟩

variable {bound : Nat} {map : FiniteMap Key Value}

theorem AtMost.mono {bound' : Nat}
    (atMost : map.AtMost bound) (weaker : bound ≤ bound') : map.AtMost bound' := by
  rcases atMost with ⟨keys, short, complete⟩
  exact ⟨keys, Nat.le_trans short weaker, complete⟩

theorem AtMost.update [DecidableEq Key]
    (atMost : map.AtMost bound) (key : Key) (value : Option Value) :
    AtMost (bound + 1) (Function.update map key value) := by
  rcases atMost with ⟨keys, short, complete⟩
  refine ⟨key :: keys, Nat.succ_le_succ short, ?_⟩
  intro other live
  by_cases same : other = key
  · exact List.mem_cons.mpr (.inl same)
  · rw [Function.update_of_ne same] at live
    exact List.mem_cons_of_mem key (complete other live)

theorem AtMost.length_le (atMost : map.AtMost bound) {keys : List Key} (nodup : keys.Nodup)
    (live : ∀ key ∈ keys, map key ≠ none) : keys.length ≤ bound := by
  rcases atMost with ⟨all, short, complete⟩
  have sub : keys ⊆ all := fun key member => complete key (live key member)
  exact Nat.le_trans (List.subperm_of_subset nodup sub).length_le short

end FiniteMap

end HypervisorFirmware
