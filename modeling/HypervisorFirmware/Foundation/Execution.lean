import Mathlib.Data.List.Basic

/-! # Executions that may not return

Fallible calls, loops with an iteration budget, and machines that execute one
operation after another. Nothing here depends on the program being modelled. -/

namespace HypervisorFirmware

/-- Why a call does not return to its caller: a loop outlives its iteration
budget; an assertion, a bounds check or an `unwrap` fails; or a raw pointer leaves
the object it points into or finds no value of its type there, and what follows is
undefined. -/
inductive Fault
  | diverged
  | panicked
  | undefined
  deriving DecidableEq, Repr

abbrev Exec (α : Type u) := Except Fault α

variable {α : Type u}

@[simp] theorem Exec.ok_bind {β : Type u} (value : α) (next : α → Exec β) :
    ((Except.ok value : Exec α) >>= next) = next value := rfl

@[simp] theorem Exec.error_bind {β : Type u} (fault : Fault) (next : α → Exec β) :
    ((Except.error fault : Exec α) >>= next) = .error fault := rfl

@[simp] theorem Exec.pure_eq_ok (value : α) : (pure value : Exec α) = .ok value := rfl

theorem Exec.bind_eq_ok {β : Type u} {call : Exec α} {next : α → Exec β} {value : β} :
    (call >>= next) = .ok value ↔ ∃ result, call = .ok result ∧ next result = .ok value := by
  cases call <;> simp

/-- A loop over a list whose iterations return exactly if their element meets a
condition returns exactly if all elements do. -/
theorem Exec.foldlM_checked {State : Type u} {Element : Type v}
    {step : State → Element → Exec State} (Invariant : State → Prop) (Meets : Element → Prop)
    [DecidablePred Meets] (next : State → Element → State) (fault : Fault)
    (preserves : ∀ state element, Invariant state → Invariant (next state element))
    (elements : List Element)
    (exact : ∀ state, ∀ element ∈ elements, Invariant state →
      step state element = if Meets element then .ok (next state element) else .error fault)
    (state : State) (holds : Invariant state) :
    elements.foldlM step state =
      if ∀ element ∈ elements, Meets element then .ok (elements.foldl next state)
      else .error fault := by
  induction elements generalizing state with
  | nil => simp
  | cons element rest induction =>
    rw [List.foldlM_cons, exact state element List.mem_cons_self holds]
    by_cases meets : Meets element
    · rw [if_pos meets, Exec.ok_bind, induction
        (fun state later member => exact state later (List.mem_cons_of_mem element member))
        (next state element) (preserves state element holds)]
      simp [meets]
    · simp [meets]

/-! ## Loops -/

namespace Loop

variable {State : Type u} {Result : Type v}

/-- Repeat `body` until it produces a result, for at most `fuel` iterations. -/
def run (body : State → Exec (State ⊕ Result)) : Nat → State → Exec Result
  | 0, _ => .error .diverged
  | fuel + 1, state =>
    match body state with
    | .error fault => .error fault
    | .ok (.inl next) => run body fuel next
    | .ok (.inr result) => .ok result

/-- What one iteration from `state` may come to: it goes on with the invariant and
a smaller measure, or the loop ends as it should. -/
def Iterated (Invariant : State → Prop) (measure : State → Nat)
    (Post : Exec Result → Prop) (state : State) : Exec (State ⊕ Result) → Prop
  | .error fault => Post (.error fault)
  | .ok (.inl next) => Invariant next ∧ measure next < measure state
  | .ok (.inr result) => Post (.ok result)

variable {body : State → Exec (State ⊕ Result)}

/-- Total correctness of a loop: an invariant that every iteration preserves
while a measure decreases carries to the result, and the measure bounds the
number of iterations. -/
theorem run_of_measure (Invariant : State → Prop) (measure : State → Nat)
    (Post : Exec Result → Prop)
    (iteration : ∀ state, Invariant state → Iterated Invariant measure Post state (body state)) :
    ∀ fuel state, Invariant state → measure state < fuel → Post (run body fuel state) := by
  intro fuel
  induction fuel with
  | zero => intro state _ bounded; omega
  | succ fuel induction =>
    intro state holds bounded
    have once := iteration state holds
    rw [run]
    cases outcome : body state with
    | error fault =>
      rw [outcome] at once
      exact once
    | ok progress =>
      rw [outcome] at once
      cases progress with
      | inl next => exact induction next once.1 (Nat.lt_of_lt_of_le once.2 (by omega))
      | inr result => exact once

theorem run_succ_eq_ok {fuel : Nat} {state : State} {result : Result} :
    run body (fuel + 1) state = .ok result ↔ body state = .ok (.inr result) ∨
      ∃ next, body state = .ok (.inl next) ∧ run body fuel next = .ok result := by
  rw [run]
  rcases body state with fault | next | value <;> simp

/-- A larger budget does not change a result. -/
theorem run_mono {fuel more : Nat} (enough : fuel ≤ more)
    {state : State} {result : Result} (returned : run body fuel state = .ok result) :
    run body more state = .ok result := by
  induction fuel generalizing more state with
  | zero => cases returned
  | succ fuel induction =>
    obtain ⟨more, rfl⟩ := Nat.exists_eq_add_of_lt enough
    rcases run_succ_eq_ok.mp returned with ended | ⟨next, went, returned⟩
    · exact run_succ_eq_ok.mpr (.inl ended)
    · exact run_succ_eq_ok.mpr
        (.inr ⟨next, went, induction (Nat.le_add_right fuel more) returned⟩)

/-- The states that a loop comes to. -/
inductive Visits (body : State → Exec (State ⊕ Result)) (start : State) : State → Prop
  | start : Visits body start start
  | next {state next : State} : Visits body start state → body state = .ok (.inl next) →
      Visits body start next

theorem Visits.after {start next reached : State}
    (once : body start = .ok (.inl next)) (visits : Visits body next reached) :
    Visits body start reached := by
  induction visits with
  | start => exact .next .start once
  | next _ stepped induction => exact .next induction stepped

theorem Visits.invariant (Invariant : State → Prop)
    (preserves : ∀ state next, Invariant state → body state = .ok (.inl next) → Invariant next)
    {start reached : State} (visits : Visits body start reached) (holds : Invariant start) :
    Invariant reached := by
  induction visits with
  | start => exact holds
  | next _ stepped induction => exact preserves _ _ induction stepped

section

variable {start reached : State} (visits : Visits body start reached)

include visits

/-- What a loop may come to from `start`: the start itself or what it may come to after
an iteration. -/
theorem Visits.cases_start :
    reached = start ∨ ∃ next, body start = .ok (.inl next) ∧ Visits body next reached := by
  induction visits with
  | start => exact Or.inl rfl
  | @next state later _ stepped induction =>
    rcases induction with rfl | ⟨next, once, visits⟩
    · exact Or.inr ⟨later, stepped, .start⟩
    · exact Or.inr ⟨next, once, .next visits stepped⟩

/-- What a loop comes to is left to do, after some iterations. -/
theorem Visits.run :
    ∃ passed, ∀ fuel, Loop.run body (passed + fuel) start = Loop.run body fuel reached := by
  induction visits with
  | start => exact ⟨0, fun fuel => by rw [Nat.zero_add]⟩
  | next _ stepped induction =>
    rcases induction with ⟨passed, same⟩
    refine ⟨passed + 1, fun fuel => ?_⟩
    rw [Nat.add_assoc, same, Nat.add_comm, Loop.run, stepped]

/-- A loop ends as the first iteration that does not go on. -/
theorem Visits.ends (outcome : Exec Result) (last : body reached = outcome.map Sum.inr) :
    ∃ enough, ∀ fuel, enough ≤ fuel → Loop.run body fuel start = outcome := by
  rcases visits.run with ⟨passed, same⟩
  refine ⟨passed + 1, fun fuel enough => ?_⟩
  obtain ⟨more, rfl⟩ := Nat.exists_eq_add_of_le enough
  rw [Nat.add_assoc, same, Nat.add_comm, Loop.run, last]
  cases outcome <;> rfl

end

/-- What a loop returns, an iteration from a state it comes to returns. -/
theorem visits_of_run {fuel : Nat} {start : State}
    {result : Result} (returned : run body fuel start = .ok result) :
    ∃ reached, Visits body start reached ∧ body reached = .ok (.inr result) := by
  induction fuel generalizing start with
  | zero => cases returned
  | succ fuel induction =>
    rcases run_succ_eq_ok.mp returned with ended | ⟨next, went, returned⟩
    · exact ⟨start, .start, ended⟩
    · rcases induction returned with ⟨reached, visits, last⟩
      exact ⟨reached, visits.after went, last⟩

end Loop

/-! ## Machines -/

namespace Machine

variable {State : Type u} {Operation : Type v} {Response : Type w}

/-- Execute the operations in order, collecting what each of them returns. A
fault ends the run. -/
def run (step : State → Operation → Exec (Response × State)) :
    State → List Operation → Exec (List Response × State)
  | state, [] => .ok ([], state)
  | state, operation :: rest =>
    match step state operation with
    | .error fault => .error fault
    | .ok (response, next) =>
      match run step next rest with
      | .error fault => .error fault
      | .ok (responses, final) => .ok (response :: responses, final)

/-- Every call of the run returns, and `Holds` is true of every state it
passes through, the first and the last included. -/
def Always (step : State → Operation → Exec (Response × State))
    (Holds : State → Prop) : State → List Operation → Prop
  | state, [] => Holds state
  | state, operation :: rest =>
    Holds state ∧ ∃ response next, step state operation = .ok (response, next) ∧
      Always step Holds next rest

/-- `Meets` is true of every operation of the run in the state it starts from. -/
def EveryStep (step : State → Operation → Exec (Response × State))
    (Meets : State → Operation → Prop) : State → List Operation → Prop
  | _, [] => True
  | state, operation :: rest =>
    Meets state operation ∧
      ∀ response next, step state operation = .ok (response, next) →
        EveryStep step Meets next rest

variable {step : State → Operation → Exec (Response × State)}

variable {operations : List Operation} {state : State} {Meets : State → Operation → Prop}

theorem run_cons_eq_ok {operation : Operation} {responses : List Response} {final : State} :
    run step state (operation :: operations) = .ok (responses, final) ↔
      ∃ response next others, step state operation = .ok (response, next) ∧
        run step next operations = .ok (others, final) ∧ responses = response :: others := by
  rw [run]
  rcases step state operation with fault | ⟨response, next⟩
  · simp
  · rcases ran : run step next operations with fault | ⟨others, last⟩
    · simp [ran]
    · simp [ran, and_comm, eq_comm]

theorem Always.final {Holds : State → Prop} (always : Always step Holds state operations) :
    ∃ responses final, run step state operations = .ok (responses, final) ∧ Holds final := by
  induction operations generalizing state with
  | nil => exact ⟨[], state, rfl, always⟩
  | cons operation rest induction =>
    rcases always with ⟨_, response, next, stepped, later⟩
    rcases induction later with ⟨responses, final, ran, holds⟩
    exact ⟨response :: responses, final, by simp [run, stepped, ran], holds⟩

/-- What follows from an invariant that every admitted operation keeps, and returns with,
is true of every state of a run. -/
theorem always_of_preserved (Invariant Meets : State → Prop) (Admitted : Operation → Prop)
    (follows : ∀ state, Invariant state → Meets state)
    (preserves : ∀ state operation, Invariant state → Admitted operation →
      ∃ response next, step state operation = .ok (response, next) ∧ Invariant next)
    (admitted : ∀ operation ∈ operations, Admitted operation) (holds : Invariant state) :
    Always step Meets state operations := by
  induction operations generalizing state with
  | nil => exact follows state holds
  | cons operation rest induction =>
    rcases preserves state operation holds (admitted operation List.mem_cons_self) with
      ⟨response, next, stepped, kept⟩
    refine ⟨follows state holds, response, next, stepped, induction ?_ kept⟩
    exact fun later member => admitted later (List.mem_cons_of_mem _ member)

theorem run_append {middle final : State} {more : List Operation} {responses others : List Response}
    (first : run step state operations = .ok (responses, middle))
    (second : run step middle more = .ok (others, final)) :
    run step state (operations ++ more) = .ok (responses ++ others, final) := by
  induction operations generalizing state responses with
  | nil =>
    simp only [run, Except.ok.injEq, Prod.mk.injEq] at first
    rw [← first.1, first.2]
    exact second
  | cons operation rest induction =>
    rcases run_cons_eq_ok.mp first with ⟨response, next, later, stepped, ran, rfl⟩
    exact run_cons_eq_ok.mpr ⟨response, next, _, stepped, induction ran, rfl⟩

/-- Every step meets a condition exactly when it does so after every part of
the run that comes before it. -/
theorem everyStep_iff (Meets : State → Operation → Prop) (operations : List Operation)
    (state : State) :
    EveryStep step Meets state operations ↔
      ∀ before operation after responses reached,
        operations = before ++ operation :: after →
        run step state before = .ok (responses, reached) → Meets reached operation := by
  induction operations generalizing state with
  | nil => simp [EveryStep]
  | cons first rest induction =>
    rw [EveryStep]
    constructor
    · intro every before operation after responses reached split ran
      cases before with
      | nil =>
        simp only [List.nil_append, List.cons.injEq] at split
        simp only [run, Except.ok.injEq, Prod.mk.injEq] at ran
        rw [← split.1, ← ran.2]
        exact every.1
      | cons head before =>
        simp only [List.cons_append, List.cons.injEq] at split
        rw [← split.1] at ran
        rcases run_cons_eq_ok.mp ran with ⟨response, next, others, stepped, later, _⟩
        exact (induction next).mp (every.2 response next stepped) before operation after others
          reached split.2 later
    · intro every
      refine ⟨every [] first rest [] state rfl rfl, ?_⟩
      intro response next stepped
      rw [induction next]
      intro before operation after responses reached split ran
      exact every (first :: before) operation after (response :: responses) reached
        (by rw [split]; rfl) (run_cons_eq_ok.mpr ⟨_, _, _, stepped, ran, rfl⟩)

/-- What an invariant of the steps implies is true of every step of a run. -/
theorem everyStep_of_invariant (Invariant : State → Prop)
    (preserves : ∀ state operation response next, Invariant state →
      step state operation = .ok (response, next) → Invariant next)
    (meets : ∀ state operation, Invariant state → Meets state operation)
    (operations : List Operation) (state : State) (holds : Invariant state) :
    EveryStep step Meets state operations := by
  induction operations generalizing state with
  | nil => exact trivial
  | cons operation rest induction =>
    refine ⟨meets state operation holds, ?_⟩
    intro response next stepped
    exact induction next (preserves state operation response next holds stepped)

theorem everyStep_of_forall {Meets : Operation → Prop}
    (all : ∀ operation ∈ operations, Meets operation) (state : State) :
    EveryStep step (fun _ => Meets) state operations := by
  induction operations generalizing state with
  | nil => exact trivial
  | cons operation rest induction =>
    refine ⟨all operation List.mem_cons_self, fun _ next _ => ?_⟩
    exact induction (fun later member => all later (List.mem_cons_of_mem _ member)) next

theorem EveryStep.and {Also : State → Operation → Prop}
    (meets : EveryStep step Meets state operations)
    (also : EveryStep step Also state operations) :
    EveryStep step (fun state operation => Meets state operation ∧ Also state operation) state
      operations := by
  induction operations generalizing state with
  | nil => exact trivial
  | cons operation rest induction =>
    refine ⟨⟨meets.1, also.1⟩, ?_⟩
    intro response next stepped
    exact induction (meets.2 response next stepped) (also.2 response next stepped)

/-- An invariant that admitted operations preserve holds where a run ends. -/
theorem run_invariant (Invariant : State → Prop) {Admitted : State → Operation → Prop}
    (preserves : ∀ state operation response next, Invariant state → Admitted state operation →
      step state operation = .ok (response, next) → Invariant next)
    {final : State} {responses : List Response}
    (holds : Invariant state) (admitted : EveryStep step Admitted state operations)
    (ran : run step state operations = .ok (responses, final)) : Invariant final := by
  induction operations generalizing state responses with
  | nil =>
    simp only [run, Except.ok.injEq, Prod.mk.injEq] at ran
    exact ran.2 ▸ holds
  | cons operation rest induction =>
    rcases run_cons_eq_ok.mp ran with ⟨response, next, others, stepped, later, _⟩
    exact induction (preserves state operation response next holds admitted.1 stepped)
      (admitted.2 response next stepped) later

/-- If one step is as it should be, in itself and in the state it leaves, exactly
when it meets a condition, then so is a run exactly when all of its steps meet the
condition. -/
theorem always_and_everyStep_iff (Invariant Holds : State → Prop)
    (Admitted Keeps Meets : State → Operation → Prop)
    (exact : ∀ state operation, Invariant state → Holds state → Admitted state operation →
      ∃ response next, step state operation = .ok (response, next) ∧
        Invariant next ∧ (Holds next ∧ Keeps state operation ↔ Meets state operation))
    (operations : List Operation) (state : State)
    (invariant : Invariant state) (holds : Holds state)
    (admitted : EveryStep step Admitted state operations) :
    Always step Holds state operations ∧ EveryStep step Keeps state operations ↔
      EveryStep step Meets state operations := by
  induction operations generalizing state with
  | nil => simp [Always, EveryStep, holds]
  | cons operation rest induction =>
    rcases exact state operation invariant holds admitted.1 with
      ⟨response, next, stepped, nextInvariant, correct⟩
    have admittedRest := admitted.2 response next stepped
    have only : ∀ {other after}, step state operation = .ok (other, after) →
        response = other ∧ next = after := by
      intro other after stepped'
      simpa [stepped] using stepped'
    simp only [Always, EveryStep, holds, true_and]
    constructor
    · rintro ⟨⟨_, _, stepped', always⟩, keeps, keepsLater⟩
      obtain ⟨rfl, rfl⟩ := only stepped'
      have kept : Holds next := by
        cases rest with
        | nil => exact always
        | cons => exact always.1
      refine ⟨correct.mp ⟨kept, keeps⟩, ?_⟩
      intro _ _ stepped'
      obtain ⟨rfl, rfl⟩ := only stepped'
      exact (induction next nextInvariant kept admittedRest).mp
        ⟨always, keepsLater response next stepped⟩
    · rintro ⟨meets, later⟩
      rcases correct.mpr meets with ⟨kept, keeps⟩
      rcases (induction next nextInvariant kept admittedRest).mpr
        (later response next stepped) with ⟨always, keepsLater⟩
      refine ⟨⟨response, next, stepped, always⟩, keeps, ?_⟩
      intro _ _ stepped'
      obtain ⟨rfl, rfl⟩ := only stepped'
      exact keepsLater

/-- If one step keeps `Holds` exactly when it meets a condition, then a run
keeps `Holds` throughout exactly when all of its steps meet the condition. -/
theorem always_iff_everyStep (Invariant Holds : State → Prop)
    (Admitted Meets : State → Operation → Prop)
    (exact : ∀ state operation, Invariant state → Holds state → Admitted state operation →
      ∃ response next, step state operation = .ok (response, next) ∧
        Invariant next ∧ (Holds next ↔ Meets state operation))
    (operations : List Operation) (state : State)
    (invariant : Invariant state) (holds : Holds state)
    (admitted : EveryStep step Admitted state operations) :
    Always step Holds state operations ↔ EveryStep step Meets state operations := by
  have trivially : EveryStep step (fun _ _ => True) state operations :=
    everyStep_of_forall (fun _ _ => trivial) state
  rw [← always_and_everyStep_iff Invariant Holds Admitted (fun _ _ => True) Meets _
    operations state invariant holds admitted, and_iff_left trivially]
  intro state operation invariant holds admitted
  simpa only [and_true] using exact state operation invariant holds admitted

end Machine

end HypervisorFirmware
