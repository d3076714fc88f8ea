import Mathlib.Algebra.Group.Nat.Defs
import HypervisorFirmware.Block.VirtioBlock

/-! # Bookkeeping of the queue

Three counters keep a request in place: the next head runs through 16 descriptors in
steps of three, the slots of the ring come around after 16 requests, and the indices of
the rings after `2^16`. Whatever the order in which the driver and the device take their
steps, the counters stay aligned with the number of requests, and the device finds the
chain of the request that it owns. -/

namespace HypervisorFirmware.Block

/-! ## Slots and points -/

def headerSlot (k : Nat) : Fin queueSize := slotOf (3 * k)

def dataSlot (k : Nat) : Fin queueSize := slotOf (3 * k + 1)

def footerSlot (k : Nat) : Fin queueSize := slotOf (3 * k + 2)

def ringSlot (k : Nat) : Fin queueSize := slotOf k

theorem headerSlot_ne_dataSlot (k : Nat) : headerSlot k ≠ dataSlot k := by
  intro equal
  have values : 3 * k % 16 = (3 * k + 1) % 16 := congrArg Fin.val equal
  omega

theorem dataSlot_ne_footerSlot (k : Nat) : dataSlot k ≠ footerSlot k := by
  intro equal
  have values : (3 * k + 1) % 16 = (3 * k + 2) % 16 := congrArg Fin.val equal
  omega

theorem headerSlot_ne_footerSlot (k : Nat) : headerSlot k ≠ footerSlot k := by
  intro equal
  have values : 3 * k % 16 = (3 * k + 2) % 16 := congrArg Fin.val equal
  omega

theorem slotOf_idx (k : Nat) : slotOf (UInt16.ofNat k).toNat = ringSlot k := by
  apply Fin.ext
  change (UInt16.ofNat k).toNat % 16 = k % 16
  rw [UInt16.toNat_ofNat']
  omega

theorem slotOf_mod (index : Nat) : slotOf (index % queueSize) = slotOf index :=
  Fin.ext (Nat.mod_mod _ _)

theorem modifyDesc_mod (state : DriverState) (index : Nat) (change : Desc → Desc) :
    state.modifyDesc (index % queueSize) change =
      .ok { state with
        descriptors := Function.update state.descriptors (slotOf index)
          (change (state.descriptors (slotOf index))) } :=
  dif_pos (Nat.mod_lt index (by decide))

namespace Point

def rank : Point → Nat
  | .idle => 0
  | .header => 1
  | .data => 2
  | .footer => 3
  | .ring => 4
  | .index => 5
  | .head => 6
  | .notify => 7
  | .wait => 8

def past (point : Point) (rank : Nat) : Bool := rank ≤ point.rank

def published (point : Point) : Bool := point.past 6

def advanced (point : Point) : Bool := point.past 7

def working (point : Point) : Bool := point.past 1 && !point.past 8

theorem eq_wait_of_rank {point : Point} (last : point.rank = 8) : point = .wait := by
  cases point with
  | wait => rfl
  | _ => cases last

end Point

def System.Owned (system : System) : Prop := system.state.used.idx ≠ system.state.avail.idx

/-! ## The invariant -/

/-- The counters and what has been written agree with the number of requests that have
returned and with the point that the driver has reached in the current one. -/
structure Aligned (system : System) : Prop where
  nextHead : system.state.nextHead =
    3 * (system.returned + system.point.advanced.toNat) % queueSize
  available : system.state.avail.idx =
    UInt16.ofNat (system.returned + system.point.published.toNat)
  used : system.state.used.idx = system.state.avail.idx ∨
    system.point.published = true ∧ system.state.used.idx = UInt16.ofNat system.returned
  nextDesc : system.point.past 2 = true → system.nextDesc =
    (3 * system.returned + 1 + (system.point.past 3).toNat) % queueSize
  header : system.point.past 2 = true →
    system.state.descriptors (headerSlot system.returned) =
      headerDesc system.call (dataSlot system.returned)
  data : system.point.past 3 = true → ∃ old,
    system.state.descriptors (dataSlot system.returned) =
      dataDesc system.call (footerSlot system.returned) old
  footer : system.point.past 4 = true →
    system.state.descriptors (footerSlot system.returned) = footerDesc system.call
  ring : system.point.past 5 = true → system.state.avail.ring (ringSlot system.returned) =
    UInt16.ofNat (headerSlot system.returned)

variable {system : System}

theorem Aligned.of_idle (idle : system.point.past 2 = false)
    (nextHead : system.state.nextHead = 3 * system.returned % queueSize)
    (available : system.state.avail.idx = UInt16.ofNat system.returned)
    (used : system.state.used.idx = system.state.avail.idx) : Aligned system := by
  have notPast : ∀ rank, 2 ≤ rank → system.point.past rank = false := by
    intro rank later
    simp only [Point.past, decide_eq_false_iff_not] at idle ⊢
    omega
  have notAdvanced : system.point.advanced = false := notPast 7 (by decide)
  have notPublished : system.point.published = false := notPast 6 (by decide)
  constructor
  · rw [notAdvanced]
    exact nextHead
  · rw [notPublished]
    exact available
  · exact .inl used
  all_goals
    intro impossible
    rw [notPast _ (by decide)] at impossible
    cases impossible

theorem aligned_initial : Aligned System.initial := .of_idle rfl rfl rfl rfl

theorem Aligned.published_of_owned (aligned : Aligned system) (owned : system.Owned) :
    system.point.published = true ∧ system.state.used.idx = UInt16.ofNat system.returned :=
  aligned.used.resolve_left owned

/-! ## One step -/

theorem Aligned.after_begin {next : System} (aligned : Aligned system) {call : Call}
    (returned : begin system call = .ok next) :
    Aligned next ∧ next.state = system.state := by
  unfold begin at returned
  split_ifs at returned with idle asserted
  · have nextHead := aligned.nextHead
    have available := aligned.available
    have used := aligned.used
    rw [idle] at nextHead available used
    cases returned
    refine ⟨.of_idle rfl nextHead available (used.resolve_right ?_), rfl⟩
    intro impossible
    cases impossible.1
  · cases returned
    exact ⟨aligned, rfl⟩

theorem Aligned.counted (aligned : Aligned system) (owned : system.Owned) :
    system.state.used.idx + 1 = system.state.avail.idx := by
  rcases aligned.published_of_owned owned with ⟨published, isUsed⟩
  rw [isUsed, aligned.available, published, UInt16.ofNat_add]
  rfl

theorem Aligned.after_complete (aligned : Aligned system) (status : UInt8) (length : UInt32) :
    Aligned (complete system status length) ∧
      (complete system status length).state.descriptors = system.state.descriptors := by
  unfold complete
  dsimp only
  split_ifs with owned
  · exact ⟨{ aligned with used := .inl (aligned.counted owned) }, rfl⟩
  · exact ⟨aligned, rfl⟩

structure Drives (system : System) (outcome : Option (Except Error Unit) × System) : Prop where
  aligned : Aligned outcome.2
  kept : system.Owned → outcome.2.state.descriptors = system.state.descriptors
  used : outcome.2.state.used = system.state.used
  forward : system.point.working = true →
    outcome.2.point.rank = system.point.rank + 1 ∧ outcome.2.returned = system.returned
  returns : system.point.past 8 = true → ¬system.Owned →
    outcome.2.point = .idle ∧ outcome.2.returned = system.returned + 1

theorem Aligned.not_owned (aligned : Aligned system)
    (notPublished : system.point.published = false) : ¬system.Owned := by
  intro owned
  have published := (aligned.published_of_owned owned).1
  rw [notPublished] at published
  cases published

theorem Aligned.drives (aligned : Aligned system) :
    ∃ outcome, drive system = .ok outcome ∧ Drives system outcome := by
  rcases system with ⟨state, point, call, nextDesc, header, status, returned⟩
  have never : ∀ {Fact : Prop}, false = true → Fact := fun impossible =>
    absurd impossible Bool.false_ne_true
  cases point with
  | idle =>
    exact ⟨_, rfl, aligned, fun _ => rfl, rfl, fun impossible => never impossible,
      fun impossible => never impossible⟩
  | header =>
    have isHead : state.nextHead = 3 * returned % queueSize := aligned.nextHead
    have written := modifyDesc_mod state (3 * returned)
      fun _ => headerDesc call ((3 * returned + 1) % queueSize)
    simp only [drive, isHead, Nat.mod_add_mod, written, Exec.ok_bind, Exec.pure_eq_ok]
    refine ⟨_, rfl, ?_, fun owned => absurd owned (aligned.not_owned rfl), rfl,
      fun _ => ⟨rfl, rfl⟩, fun impossible => never impossible⟩
    exact
      { aligned with
        nextHead := rfl
        nextDesc := fun _ => rfl
        header := fun _ => Function.update_self ..
        data := fun impossible => never impossible
        footer := fun impossible => never impossible }
  | data =>
    have isData : nextDesc = (3 * returned + 1) % queueSize := aligned.nextDesc rfl
    have written := modifyDesc_mod state (3 * returned + 1)
      (dataDesc call ((3 * returned + 2) % queueSize))
    simp only [drive, isData, Nat.mod_add_mod, written, Exec.ok_bind, Exec.pure_eq_ok]
    refine ⟨_, rfl, ?_, fun owned => absurd owned (aligned.not_owned rfl), rfl,
      fun _ => ⟨rfl, rfl⟩, fun impossible => never impossible⟩
    exact
      { aligned with
        nextDesc := fun _ => rfl
        header := fun _ => (Function.update_of_ne (headerSlot_ne_dataSlot returned) ..).trans
          (aligned.header rfl)
        data := fun _ => ⟨_, Function.update_self ..⟩
        footer := fun impossible => never impossible }
  | footer =>
    have isFooter : nextDesc = (3 * returned + 2) % queueSize := aligned.nextDesc rfl
    have written := modifyDesc_mod state (3 * returned + 2) fun _ => footerDesc call
    simp only [drive, isFooter, written, Exec.ok_bind, Exec.pure_eq_ok]
    refine ⟨_, rfl, ?_, fun owned => absurd owned (aligned.not_owned rfl), rfl,
      fun _ => ⟨rfl, rfl⟩, fun impossible => never impossible⟩
    exact
      { aligned with
        nextDesc := fun _ => rfl
        header := fun _ => (Function.update_of_ne (headerSlot_ne_footerSlot returned) ..).trans
          (aligned.header rfl)
        data := fun _ => by
          rcases aligned.data rfl with ⟨old, isData⟩
          exact ⟨old, (Function.update_of_ne (dataSlot_ne_footerSlot returned) ..).trans isData⟩
        footer := fun _ => Function.update_self .. }
  | ring =>
    have isHead : state.nextHead = 3 * returned % queueSize := aligned.nextHead
    have isSlot : slotOf state.avail.idx.toNat = ringSlot returned := by
      rw [aligned.available]
      exact slotOf_idx returned
    refine ⟨_, rfl, ?_, fun _ => rfl, rfl, fun _ => ⟨rfl, rfl⟩, fun impossible => never impossible⟩
    exact
      { aligned with
        ring := fun _ => by
          simp only [isSlot, isHead]
          exact Function.update_self .. }
  | index =>
    have before : state.used.idx = state.avail.idx := aligned.used.resolve_right fun published =>
      never published.1
    refine ⟨_, rfl, ?_, fun _ => rfl, rfl, fun _ => ⟨rfl, rfl⟩, fun impossible => never impossible⟩
    exact
      { aligned with
        available := by
          rw [UInt16.ofNat_add]
          exact congrArg (· + 1) aligned.available
        used := .inr ⟨rfl, before.trans aligned.available⟩ }
  | head =>
    have isFooter : nextDesc = (3 * returned + 2) % queueSize := aligned.nextDesc rfl
    refine ⟨_, rfl, ?_, fun _ => rfl, rfl, fun _ => ⟨rfl, rfl⟩, fun impossible => never impossible⟩
    exact
      { aligned with
        nextHead := by
          rw [isFooter, Nat.mod_add_mod]
          rfl }
  | notify =>
    refine ⟨_, rfl, ?_, fun _ => rfl, rfl, fun _ => ⟨rfl, rfl⟩, fun impossible => never impossible⟩
    exact { aligned with }
  | wait =>
    by_cases owned : state.used.idx ≠ state.avail.idx
    · simp only [drive, owned, ne_eq, not_false_eq_true, if_true]
      exact ⟨_, rfl, aligned, fun _ => rfl, rfl, fun impossible => never impossible,
        fun _ notOwned => absurd owned notOwned⟩
    · simp only [drive, owned, if_false]
      exact ⟨_, rfl, .of_idle rfl aligned.nextHead aligned.available (not_not.mp owned),
        fun _ => rfl, rfl, fun impossible => never impossible, fun _ _ => ⟨rfl, rfl⟩⟩

theorem Aligned.after_step {next : System} (aligned : Aligned system) {action : Action}
    {response : Option (Except Error Unit)}
    (stepped : step system action = .ok (response, next)) :
    Aligned next ∧ (system.Owned → next.state.descriptors = system.state.descriptors) := by
  cases action with
  | request call =>
    rw [step] at stepped
    cases began : begin system call with
    | error fault =>
      rw [began] at stepped
      cases stepped
    | ok system' =>
      rw [began] at stepped
      cases stepped
      rcases aligned.after_begin began with ⟨kept, same⟩
      exact ⟨kept, fun _ => by rw [same]⟩
  | drive =>
    rcases aligned.drives with ⟨outcome, driven, kept⟩
    rw [step, driven] at stepped
    cases stepped
    exact ⟨kept.aligned, kept.kept⟩
  | complete status length =>
    cases stepped
    rcases aligned.after_complete status length with ⟨kept, same⟩
    exact ⟨kept, fun _ => same⟩

theorem Aligned.step_returns (aligned : Aligned system) {action : Action}
    (valid : action.Valid) : ∃ response next, step system action = .ok (response, next) := by
  cases action with
  | request call =>
    have asserted := Call.Valid.asserts valid
    rw [step, begin]
    by_cases idle : system.point = .idle
    · rw [if_pos idle, if_pos asserted]
      exact ⟨_, _, rfl⟩
    · rw [if_neg idle]
      exact ⟨_, _, rfl⟩
  | drive =>
    rcases aligned.drives with ⟨outcome, driven, _⟩
    exact ⟨outcome.1, outcome.2, driven⟩
  | complete status length => exact ⟨_, _, rfl⟩

/-! ## What the device sees -/

def Desc.hasNext (desc : Desc) : Prop := desc.flags &&& virtqDescFNext ≠ 0

def Desc.hasWrite (desc : Desc) : Prop := desc.flags &&& virtqDescFWrite ≠ 0

theorem headerDesc_flags (call : Call) (next : Nat) :
    (headerDesc call next).hasNext ∧ ¬(headerDesc call next).hasWrite := by
  change virtqDescFNext &&& virtqDescFNext ≠ 0 ∧ ¬virtqDescFNext &&& virtqDescFWrite ≠ 0
  decide

theorem dataDesc_flags (call : Call) (next : Nat) (old : Desc) : (dataDesc call next old).hasNext ∧
      ((dataDesc call next old).hasWrite ↔ call.request = .read) := by
  simp only [Desc.hasNext, Desc.hasWrite, dataDesc]
  cases call.request with
  | read => decide
  | write => decide
  | flush => decide

theorem footerDesc_flags (call : Call) :
    ¬(footerDesc call).hasNext ∧ (footerDesc call).hasWrite := by
  change ¬virtqDescFWrite &&& virtqDescFNext ≠ 0 ∧ virtqDescFWrite &&& virtqDescFWrite ≠ 0
  decide

/-- The ring holds the head of the chain of request number `k`, and the chain has three
different descriptors, for the header, the data and the footer of the call. -/
structure Chained (state : DriverState) (k : Nat) (call : Call) : Prop where
  ring : (state.avail.ring (ringSlot k)).toNat = 3 * k % 16
  distinct : headerSlot k ≠ dataSlot k ∧ dataSlot k ≠ footerSlot k ∧ headerSlot k ≠ footerSlot k
  headerNext : (state.descriptors (headerSlot k)).hasNext ∧
    (state.descriptors (headerSlot k)).next.toNat = dataSlot k
  dataNext : (state.descriptors (dataSlot k)).hasNext ∧
    (state.descriptors (dataSlot k)).next.toNat = footerSlot k
  footerNext : ¬(state.descriptors (footerSlot k)).hasNext
  headerWrite : ¬(state.descriptors (headerSlot k)).hasWrite
  dataWrite : (state.descriptors (dataSlot k)).hasWrite ↔ call.request = .read
  footerWrite : (state.descriptors (footerSlot k)).hasWrite
  headerBuffer : (state.descriptors (headerSlot k)).addr = call.headerAddress ∧
    (state.descriptors (headerSlot k)).length = 16
  dataBuffer : ∀ slice, call.data = some slice → call.request ≠ .flush →
    (state.descriptors (dataSlot k)).addr = slice.address ∧
      (state.descriptors (dataSlot k)).length = 512
  footerBuffer : (state.descriptors (footerSlot k)).addr = call.footerAddress ∧
    (state.descriptors (footerSlot k)).length = 1

theorem toNat_ofNat_slot (slot : Fin queueSize) : (UInt16.ofNat slot).toNat = slot := by
  rw [UInt16.toNat_ofNat', Nat.mod_eq_of_lt]
  exact Nat.lt_trans slot.isLt (by decide)

theorem Aligned.chained (aligned : Aligned system) (published : system.point.published = true) :
    Chained system.state system.returned system.call := by
  have past : ∀ rank ≤ 6, system.point.past rank = true := by
    intro rank earlier
    simp only [Point.published, Point.past, decide_eq_true_eq] at published ⊢
    omega
  have header := aligned.header (past 2 (by decide))
  have footer := aligned.footer (past 4 (by decide))
  rcases aligned.data (past 3 (by decide)) with ⟨old, data⟩
  constructor
  · rw [aligned.ring (past 5 (by decide)), toNat_ofNat_slot]
    rfl
  · exact ⟨headerSlot_ne_dataSlot _, dataSlot_ne_footerSlot _, headerSlot_ne_footerSlot _⟩
  · rw [header]
    exact ⟨(headerDesc_flags _ _).1, toNat_ofNat_slot _⟩
  · rw [data]
    exact ⟨(dataDesc_flags _ _ _).1, toNat_ofNat_slot _⟩
  · rw [footer]
    exact (footerDesc_flags _).1
  · rw [header]
    exact (headerDesc_flags _ _).2
  · rw [data]
    exact (dataDesc_flags _ _ _).2
  · rw [footer]
    exact (footerDesc_flags _).2
  · rw [header]
    exact ⟨rfl, rfl⟩
  · intro slice isData notFlush
    rw [data]
    simp [dataDesc, isData, notFlush]
  · rw [footer]
    exact ⟨rfl, rfl⟩

/-- The counters between two requests, and the chain while a request is published. -/
structure Bookkept (system : System) : Prop where
  nextHead : system.point = .idle → system.state.nextHead = 3 * system.returned % 16
  available : system.point = .idle → system.state.avail.idx.toNat = system.returned % 2 ^ 16
  published : system.point.published = true →
    Chained system.state system.returned system.call
  owned : system.Owned → system.point.published = true

theorem Aligned.bookkept (aligned : Aligned system) : Bookkept system where
  nextHead := by
    intro idle
    have nextHead := aligned.nextHead
    rw [idle] at nextHead
    exact nextHead
  available := by
    intro idle
    have available := aligned.available
    rw [idle] at available
    rw [available]
    exact UInt16.toNat_ofNat'
  published := aligned.chained
  owned := fun owned => (aligned.published_of_owned owned).1

def KeepsOwned (system : System) (action : Action) : Prop :=
  ∀ response next, step system action = .ok (response, next) → system.Owned →
    next.state.descriptors = system.state.descriptors

/-! ## Requests that are served -/

structure Service where
  call : Call
  looks : Nat
  status : UInt8
  length : UInt32

def Service.actions (service : Service) : List Action :=
  [.request service.call] ++ List.replicate 7 .drive ++ List.replicate service.looks .drive ++
    [.complete service.status service.length, .drive]

theorem ofNat_ne_succ (k : Nat) : UInt16.ofNat k ≠ UInt16.ofNat (k + 1) := by
  rw [ne_eq, ← UInt16.toNat_inj, UInt16.toNat_ofNat', UInt16.toNat_ofNat']
  omega

theorem Aligned.run_to_wait (aligned : Aligned system) (steps : Nat)
    (inside : 1 ≤ system.point.rank) (enough : system.point.rank + steps = 8) :
    ∃ responses next,
      run system (List.replicate steps .drive) = .ok (responses, next) ∧
      Aligned next ∧ next.point = .wait ∧ next.returned = system.returned ∧
      next.state.used = system.state.used := by
  induction steps generalizing system with
  | zero => exact ⟨[], system, rfl, aligned, Point.eq_wait_of_rank enough, rfl, rfl⟩
  | succ steps induction =>
    have working : system.point.working = true := by
      simp only [Point.working, Point.past, Bool.and_eq_true, decide_eq_true_eq,
        Bool.not_eq_true', decide_eq_false_iff_not]
      omega
    rcases aligned.drives with ⟨⟨response, middle⟩, driven, drives⟩
    rcases drives.forward working with ⟨rank, same⟩
    simp only at rank same
    rcases induction drives.aligned (by simp only; omega) (by simp only; omega) with
      ⟨responses, next, ran, kept, waiting, returned, used⟩
    refine ⟨response :: responses, next, ?_, kept, waiting, returned.trans same,
      used.trans drives.used⟩
    have stepped : step system .drive = .ok (response, middle) := driven
    rw [List.replicate_succ, run, Machine.run, stepped]
    simp only [show Machine.run step middle _ = _ from ran]

theorem run_looks (waiting : system.point = .wait) (owned : system.Owned) (looks : Nat) :
    ∃ responses, run system (List.replicate looks .drive) = .ok (responses, system) := by
  induction looks with
  | zero => exact ⟨[], rfl⟩
  | succ looks induction =>
    rcases induction with ⟨responses, ran⟩
    have looked : step system .drive = .ok (none, system) := by
      rw [step, drive]
      simp only [waiting]
      exact if_pos owned
    refine ⟨none :: responses, ?_⟩
    rw [List.replicate_succ, run, Machine.run, looked]
    simp only [show Machine.run step system _ = _ from ran]

theorem Aligned.run_answer (aligned : Aligned system)
    (waiting : system.point = .wait) (owned : system.Owned) (status : UInt8)
    (length : UInt32) :
    ∃ responses next, run system [.complete status length, .drive] = .ok (responses, next) ∧
      Aligned next ∧ next.point = .idle ∧ next.returned = system.returned + 1 := by
  have completed : complete system status length = _ := if_pos owned
  have notOwned : ¬(complete system status length).Owned := by
    rw [System.Owned, completed, not_not]
    exact aligned.counted owned
  have stillWaiting : (complete system status length).point.past 8 = true := by
    rw [completed, waiting]
    rfl
  rcases (aligned.after_complete status length).1.drives with ⟨⟨response, next⟩, driven, drives⟩
  rcases drives.returns stillWaiting notOwned with ⟨idle, returned⟩
  refine ⟨[none, response], next, ?_, drives.aligned, idle, ?_⟩
  · simp [run, Machine.run, step, driven]
  · rw [returned, completed]

section

variable (aligned : Aligned system) (idle : system.point = .idle)

include aligned idle

theorem Aligned.run_request {call : Call} (valid : call.Valid) :
    ∃ responses next, run system [.request call] = .ok (responses, next) ∧ Aligned next ∧
      next.point = .header ∧ next.returned = system.returned := by
  have began : ∃ next, begin system call = .ok next ∧ next.point = .header ∧
      next.returned = system.returned := by
    rw [begin, if_pos idle, if_pos valid.asserts]
    exact ⟨_, rfl, rfl, rfl⟩
  rcases began with ⟨next, began, isHeader, returned⟩
  refine ⟨[none], next, ?_, (aligned.after_begin began).1, isHeader, returned⟩
  simp [run, Machine.run, step, began]

theorem Aligned.run_service (service : Service) (valid : service.call.Valid) :
    ∃ responses next, run system service.actions = .ok (responses, next) ∧
      Aligned next ∧ next.point = .idle ∧ next.returned = system.returned + 1 := by
  rcases aligned.run_request idle valid with
    ⟨_, started, requested, startedAligned, isHeader, startedReturned⟩
  rcases startedAligned.run_to_wait 7 (by rw [isHeader]; decide) (by rw [isHeader]; rfl) with
    ⟨_, waiting, worked, waitingAligned, isWait, waitingReturned, sameUsed⟩
  have owned : waiting.Owned := by
    have notOwned := startedAligned.not_owned (by rw [isHeader]; rfl)
    have available := startedAligned.available
    rw [isHeader] at available
    rw [System.Owned, sameUsed, not_not.mp notOwned, available, waitingAligned.available, isWait,
      waitingReturned]
    exact ofNat_ne_succ started.returned
  rcases run_looks isWait owned service.looks with ⟨_, looked⟩
  rcases waitingAligned.run_answer isWait owned service.status service.length with
    ⟨_, next, answered, nextAligned, isIdle, returned⟩
  refine ⟨_, next, Machine.run_append (Machine.run_append (Machine.run_append requested worked)
    looked) answered, nextAligned, isIdle, ?_⟩
  rw [returned, waitingReturned, startedReturned]

theorem Aligned.run_services (services : List Service)
    (valid : ∀ service ∈ services, service.call.Valid) :
    ∃ responses next, run system (services.flatMap Service.actions) = .ok (responses, next) ∧
      Aligned next ∧ next.point = .idle ∧
      next.returned = system.returned + services.length := by
  induction services generalizing system with
  | nil => exact ⟨[], system, rfl, aligned, idle, rfl⟩
  | cons service rest induction =>
    rcases aligned.run_service idle service (valid service List.mem_cons_self) with
      ⟨_, middle, served, middleAligned, middleIdle, middleReturned⟩
    rcases induction middleAligned middleIdle fun later member =>
        valid later (List.mem_cons_of_mem _ member) with
      ⟨_, next, ran, nextAligned, isIdle, returned⟩
    refine ⟨_, next, Machine.run_append served ran, nextAligned, isIdle, ?_⟩
    rw [returned, middleReturned, List.length_cons]
    omega

end

/-! ## Any number of requests -/

/-- In every interleaving of valid calls, steps of the driver and answers of the device,
all states are bookkept, and no descriptor changes while the device owns a request. And any
number of calls that are answered return, with the counters that belong to their number. -/
theorem bookkeeping_any_requests (actions : List Action)
    (valid : ∀ action ∈ actions, action.Valid) (services : List Service)
    (validServices : ∀ service ∈ services, service.call.Valid) :
    Machine.Always step Bookkept .initial actions ∧
      Machine.EveryStep step KeepsOwned .initial actions ∧
      ∃ responses final,
        run .initial (services.flatMap Service.actions) = .ok (responses, final) ∧
        final.point = .idle ∧ final.returned = services.length ∧
        final.state.nextHead = 3 * services.length % 16 ∧
        final.state.avail.idx.toNat = services.length % 2 ^ 16 := by
  refine ⟨?_, ?_, ?_⟩
  · apply Machine.always_of_preserved Aligned Bookkept Action.Valid
      (fun _ aligned => aligned.bookkept) _ valid aligned_initial
    intro system action aligned isValid
    rcases aligned.step_returns isValid with ⟨response, next, stepped⟩
    exact ⟨response, next, stepped, (aligned.after_step stepped).1⟩
  · apply Machine.everyStep_of_invariant Aligned _ _ actions .initial aligned_initial
    · intro system action response next aligned stepped
      exact (aligned.after_step stepped).1
    · intro system action aligned response next stepped
      exact (aligned.after_step stepped).2
  · rcases aligned_initial.run_services rfl services validServices with
      ⟨responses, final, ran, aligned, isIdle, returned⟩
    have counted : final.returned = services.length := returned.trans (Nat.zero_add _)
    refine ⟨responses, final, ran, isIdle, counted, ?_, ?_⟩
    · rw [aligned.bookkept.nextHead isIdle, counted]
    · rw [aligned.bookkept.available isIdle, counted]

theorem bookkeeping_any_requests_past_wrap :
    Machine.Always step Bookkept .initial
        [.request ⟨7, some ⟨0x300000, 512⟩, .read, 0x7000, 0x7010⟩, .drive, .drive,
          .complete 0 513, .drive, .drive, .drive, .complete 0 513, .drive] ∧
      Machine.EveryStep step KeepsOwned .initial
        [.request ⟨7, some ⟨0x300000, 512⟩, .read, 0x7000, 0x7010⟩, .drive, .drive,
          .complete 0 513, .drive, .drive, .drive, .complete 0 513, .drive] ∧
      ∃ responses final,
        run .initial ((List.replicate 70000
          ⟨⟨0, none, .flush, 0x7000, 0x7010⟩, 3, 0, 1⟩).flatMap Service.actions) =
            .ok (responses, final) ∧
        final.point = .idle ∧ final.returned = 70000 ∧
        final.state.nextHead = 3 * 70000 % 16 ∧
        final.state.avail.idx.toNat = 70000 % 2 ^ 16 := by
  have served := bookkeeping_any_requests
    [.request ⟨7, some ⟨0x300000, 512⟩, .read, 0x7000, 0x7010⟩, .drive, .drive,
      .complete 0 513, .drive, .drive, .drive, .complete 0 513, .drive]
    (by simp [Action.Valid, Call.Valid])
    (List.replicate 70000 ⟨⟨0, none, .flush, 0x7000, 0x7010⟩, 3, 0, 1⟩)
    (fun service member notFlush =>
      absurd (congrArg (fun service => service.call.request) (List.eq_of_mem_replicate member))
        notFlush)
  rwa [List.length_replicate] at served

end HypervisorFirmware.Block
