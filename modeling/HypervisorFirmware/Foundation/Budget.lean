import HypervisorFirmware.Foundation.Execution

/-! # Budgets that suffice

Calls that take a budget of iterations and hand it on to what they call: loops in whose
body there are other loops. Nothing here depends on the program being modelled. -/

namespace HypervisorFirmware

variable {α : Type u}

/-- With a large enough budget the call comes to this outcome. -/
def SettlesTo (call : Nat → Exec α) (outcome : Exec α) : Prop :=
  ∃ enough, ∀ fuel, enough ≤ fuel → call fuel = outcome

variable {call : Nat → Exec α}

theorem SettlesTo.unique {first second : Exec α}
    (settles : SettlesTo call first) (settles' : SettlesTo call second) : first = second := by
  rcases settles with ⟨enough, same⟩
  rcases settles' with ⟨enough', same'⟩
  have once := same (max enough enough') (Nat.le_max_left _ _)
  exact once.symm.trans (same' _ (Nat.le_max_right _ _))

/-- One budget is large enough for all elements of a list. -/
theorem SettlesTo.forall_mem {Element : Type v} {call : Element → Nat → Exec α}
    {outcome : Element → Exec α} {elements : List Element}
    (settles : ∀ element ∈ elements, SettlesTo (call element) (outcome element)) :
    ∃ enough, ∀ element ∈ elements, ∀ fuel, enough ≤ fuel →
      call element fuel = outcome element := by
  induction elements with
  | nil => exact ⟨0, by simp⟩
  | cons first rest induction =>
    rcases settles first List.mem_cons_self with ⟨enough, same⟩
    rcases induction fun element member => settles element (List.mem_cons_of_mem first member)
      with ⟨enough', same'⟩
    refine ⟨max enough enough', fun element member fuel many => ?_⟩
    rcases List.mem_cons.mp member with rfl | later
    · exact same fuel (by omega)
    · exact same' element later fuel (by omega)

/-- A large enough budget is not exceeded. -/
def Settles (call : Nat → Exec α) : Prop :=
  ∃ outcome, outcome ≠ .error .diverged ∧ SettlesTo call outcome

theorem Settles.const {outcome : Exec α} (ends : outcome ≠ .error .diverged) :
    Settles fun _ => outcome :=
  ⟨outcome, ends, 0, fun _ _ => rfl⟩

theorem Settles.bind {γ : Type u} (settles : Settles call)
    {next : α → Exec γ} (ends : ∀ value, next value ≠ .error .diverged) :
    Settles fun fuel => call fuel >>= next := by
  rcases settles with ⟨outcome, within, enough, same⟩
  refine ⟨outcome >>= next, ?_, enough, fun fuel many => congrArg (· >>= next) (same fuel many)⟩
  cases outcome with
  | error fault => simpa using within
  | ok value => exact ends value

/-- What always exceeds its budget does not settle. -/
theorem not_settles_of_diverges
    (diverges : ∀ fuel, call fuel = .error .diverged) : ¬Settles call := by
  rintro ⟨outcome, ends, enough, same⟩
  exact ends ((same enough (Nat.le_refl _)).symm.trans (diverges enough))

namespace Loop

variable {State : Type u} {Result : Type v}

/-- A loop comes to this outcome, if both it and the calls in its body have a large
enough budget. -/
def SettlesTo (body : Nat → State → Exec (State ⊕ Result)) (state : State)
    (outcome : Exec Result) : Prop :=
  ∃ enough, ∀ inner fuel, enough ≤ inner → enough ≤ fuel →
    run (body inner) fuel state = outcome

variable {state : State} {body : State → Exec (State ⊕ Result)}

theorem settlesTo_stop {body : Nat → State → Exec (State ⊕ Result)} {outcome : Exec Result}
    (stops : HypervisorFirmware.SettlesTo (fun inner => body inner state)
      (outcome.map Sum.inr)) : SettlesTo body state outcome := by
  rcases stops with ⟨enough, same⟩
  refine ⟨enough + 1, fun inner fuel many more => ?_⟩
  obtain ⟨fuel, rfl⟩ := Nat.exists_eq_add_of_le' (Nat.le_trans (Nat.le_add_left 1 enough) more)
  have once : body inner state = outcome.map Sum.inr := same inner (Nat.le_of_succ_le many)
  rw [run, once]
  cases outcome <;> rfl

theorem settlesTo_next {body : Nat → State → Exec (State ⊕ Result)} {next : State}
    {outcome : Exec Result}
    (goes : HypervisorFirmware.SettlesTo (fun inner => body inner state) (.ok (.inl next)))
    (later : SettlesTo body next outcome) : SettlesTo body state outcome := by
  rcases goes with ⟨enough, same⟩
  rcases later with ⟨enough', later⟩
  refine ⟨max enough enough' + 1, fun inner fuel many more => ?_⟩
  obtain ⟨fuel, rfl⟩ := Nat.exists_eq_add_of_le'
    (Nat.le_trans (Nat.le_add_left 1 (max enough enough')) more)
  have once : body inner state = .ok (.inl next) := same inner (by omega)
  rw [run, once]
  exact later inner fuel (by omega) (by omega)

/-- A loop ends, if both it and the calls in its body have a large enough budget. -/
def Settles (body : Nat → State → Exec (State ⊕ Result)) (state : State) : Prop :=
  ∃ outcome, outcome ≠ .error .diverged ∧ SettlesTo body state outcome

/-- A loop ends if an iteration ends, and the loop from where it goes on. -/
theorem Settles.of_body {body : Nat → State → Exec (State ⊕ Result)}
    {outcome : Exec (State ⊕ Result)} (within : outcome ≠ .error .diverged)
    (once : HypervisorFirmware.SettlesTo (fun inner => body inner state) outcome)
    (later : ∀ next, outcome = .ok (.inl next) → Settles body next) : Settles body state := by
  rcases outcome with fault | next | result
  · exact ⟨.error fault, by simpa using within, settlesTo_stop once⟩
  · rcases later next rfl with ⟨outcome, ends, settles⟩
    exact ⟨outcome, ends, settlesTo_next once settles⟩
  · exact ⟨.ok result, by simp, settlesTo_stop once⟩

theorem Settles.run {body : Nat → State → Exec (State ⊕ Result)} (settles : Settles body state) :
    HypervisorFirmware.Settles fun fuel => Loop.run (body fuel) fuel state := by
  rcases settles with ⟨outcome, ends, enough, same⟩
  exact ⟨outcome, ends, enough, fun fuel many => same fuel fuel many many⟩

/-- A loop that goes on wherever it comes to exceeds every budget. -/
theorem run_diverges {start : State}
    (goesOn : ∀ reached, Visits body start reached → ∃ next, body reached = .ok (.inl next))
    (fuel : Nat) : run body fuel start = .error .diverged := by
  induction fuel generalizing start with
  | zero => rfl
  | succ fuel induction =>
    rcases goesOn start .start with ⟨next, once⟩
    rw [run, once]
    exact induction fun reached visits => goesOn reached (visits.after once)

/-- A fault of a loop is one of an iteration, unless the budget is exceeded. -/
theorem visits_of_fault {fuel : Nat} {start : State}
    {fault : Fault} (faulted : run body fuel start = .error fault) (within : fault ≠ .diverged) :
    ∃ reached, Visits body start reached ∧ body reached = .error fault := by
  induction fuel generalizing start with
  | zero =>
    cases faulted
    exact absurd rfl within
  | succ fuel induction =>
    rw [run] at faulted
    cases outcome : body start with
    | error other =>
      simp only [outcome, Except.error.injEq] at faulted
      exact ⟨start, .start, faulted ▸ outcome⟩
    | ok progress =>
      cases progress with
      | inl next =>
        simp only [outcome] at faulted
        rcases induction faulted with ⟨reached, visits, last⟩
        exact ⟨reached, visits.after outcome, last⟩
      | inr value => simp [outcome] at faulted

/-- What a loop returns, one that follows it returns as well. -/
theorem run_follows {other : State → Exec (State ⊕ Result)}
    (follows : ∀ state progress, body state = .ok progress → other state = .ok progress)
    {fuel : Nat} {start : State} {result : Result} (returned : run body fuel start = .ok result) :
    run other fuel start = .ok result := by
  induction fuel generalizing start with
  | zero => cases returned
  | succ fuel induction =>
    rcases run_succ_eq_ok.mp returned with ended | ⟨next, went, returned⟩
    · exact run_succ_eq_ok.mpr (.inl (follows _ _ ended))
    · exact run_succ_eq_ok.mpr (.inr ⟨next, follows _ _ went, induction returned⟩)

theorem Visits.follows {other : State → Exec (State ⊕ Result)} {start reached : State}
    (follows : ∀ state progress, body state = .ok progress → other state = .ok progress)
    (visits : Visits body start reached) : Visits other start reached := by
  induction visits with
  | start => exact .start
  | next _ stepped induction => exact .next induction (follows _ _ stepped)

/-- A loop ends with a result and comes to states that meet a condition only. -/
inductive Walks (body : State → Exec (State ⊕ Result)) (Meets : State → Prop) :
    State → Result → Prop
  | stop {state : State} {result : Result} : Meets state → body state = .ok (.inr result) →
      Walks body Meets state result
  | next {state next : State} {result : Result} : Meets state → body state = .ok (.inl next) →
      Walks body Meets next result → Walks body Meets state result

theorem walks_iff {Meets : State → Prop} {start : State} {result : Result} :
    Walks body Meets start result ↔
      (∃ fuel, run body fuel start = .ok result) ∧
        ∀ reached, Visits body start reached → Meets reached := by
  constructor
  · intro walks
    induction walks with
    | stop meets stopped =>
      refine ⟨⟨1, by rw [run, stopped]⟩, fun reached visits => ?_⟩
      rcases visits.cases_start with rfl | ⟨next, once, _⟩
      · exact meets
      · rw [stopped] at once
        cases once
    | next meets stepped _ induction =>
      rcases induction with ⟨⟨fuel, returned⟩, all⟩
      refine ⟨⟨fuel + 1, by rw [run, stepped]; exact returned⟩, fun reached visits => ?_⟩
      rcases visits.cases_start with rfl | ⟨next, once, visits⟩
      · exact meets
      · rw [stepped, Except.ok.injEq, Sum.inl.injEq] at once
        exact all reached (once ▸ visits)
  · rintro ⟨⟨fuel, returned⟩, all⟩
    induction fuel generalizing start with
    | zero => cases returned
    | succ fuel induction =>
      rcases run_succ_eq_ok.mp returned with ended | ⟨next, went, returned⟩
      · exact .stop (all start .start) ended
      · have later : ∀ reached, Visits body next reached → Meets reached :=
          fun reached visits => all reached (visits.after went)
        exact .next (all start .start) went (induction later returned)

end Loop

end HypervisorFirmware
