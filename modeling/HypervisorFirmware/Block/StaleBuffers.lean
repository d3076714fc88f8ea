import HypervisorFirmware.Block.Bookkeeping

/-! # Whose memory a descriptor describes

The descriptors of the queue are used again after a few requests, and a flush does not
write the address and the length of its data descriptor. The state of the driver is
tracked here together with the request that has last written them in each descriptor. -/

namespace HypervisorFirmware.Block

/-! ## Authors -/

structure Tracked where
  system : System
  author : Fin queueSize → Option Nat

def Tracked.initial : Tracked := ⟨.initial, fun _ => none⟩

def writtenSlot (system : System) : Action → Option (Fin queueSize)
  | .drive =>
    match system.point with
    | .header => some (slotOf system.state.nextHead)
    | .data =>
      if system.call.request ≠ .flush then some (slotOf system.nextDesc) else none
    | .footer => some (slotOf system.nextDesc)
    | _ => none
  | _ => none

def trackedStep (tracked : Tracked) (action : Action) :
    Exec (Option (Except Error Unit) × Tracked) := do
  let (response, system) ← step tracked.system action
  return (response,
    { system
      author := (writtenSlot tracked.system action).elim tracked.author fun slot =>
        Function.update tracked.author slot (some tracked.system.returned) })

def Tracked.buffer (tracked : Tracked) (slot : Fin queueSize) : UInt64 × UInt32 :=
  ((tracked.system.state.descriptors slot).addr, (tracked.system.state.descriptors slot).length)

/-! ## The memory of a request -/

def Call.Owns (call : Call) (buffer : UInt64 × UInt32) : Prop :=
  buffer = (call.headerAddress, 16) ∨
    (∃ slice, call.request ≠ .flush ∧ call.data = some slice ∧ slice.length = 512 ∧
      buffer = (slice.address, 512)) ∨
    buffer = (call.footerAddress, 1)

inductive InChain (state : DriverState) (head : Fin queueSize) : Fin queueSize → Prop
  | head : InChain state head head
  | next {slot : Fin queueSize} (before : InChain state head slot)
      (hasNext : (state.descriptors slot).hasNext) :
      InChain state head (slotOf (state.descriptors slot).next.toNat)

def System.publishedHead (system : System) : Fin queueSize :=
  slotOf (system.state.avail.ring (slotOf (system.state.avail.idx - 1).toNat)).toNat

/-- Each descriptor of the published chain was written by this request and describes
memory of its own. One that was never written describes nothing. -/
def OwnBuffers (tracked : Tracked) : Prop :=
  ∀ slot, InChain tracked.system.state tracked.system.publishedHead slot →
    (tracked.author slot = some tracked.system.returned ∧
        tracked.system.call.Owns (tracked.buffer slot)) ∨
      (tracked.author slot = none ∧ tracked.buffer slot = (0, 0))

/-! ## What a step does to the buffers -/

def staleAuthor (k : Nat) : Option Nat := if k < 5 then none else some (k - 5)

theorem dataSlot_add_five (k : Nat) : dataSlot (k + 5) = headerSlot k := by
  apply Fin.ext
  change (3 * (k + 5) + 1) % 16 = 3 * k % 16
  omega

theorem dataSlot_ahead_ne (k : Nat) {ahead : Nat} (behind : 1 ≤ ahead) (before : ahead < 5) :
    dataSlot (k + ahead) ≠ headerSlot k ∧ dataSlot (k + ahead) ≠ dataSlot k ∧
      dataSlot (k + ahead) ≠ footerSlot k := by
  refine ⟨?_, ?_, ?_⟩
  · intro equal
    have values : (3 * (k + ahead) + 1) % 16 = 3 * k % 16 := congrArg Fin.val equal
    omega
  · intro equal
    have values : (3 * (k + ahead) + 1) % 16 = (3 * k + 1) % 16 := congrArg Fin.val equal
    omega
  · intro equal
    have values : (3 * (k + ahead) + 1) % 16 = (3 * k + 2) % 16 := congrArg Fin.val equal
    omega

section

variable (before after : Tracked)

/-- A step in which no descriptor is written and no call begins or returns. -/
structure Quiet : Prop where
  past : ∀ rank ≤ 4, after.system.point.past rank = before.system.point.past rank
  call : after.system.call = before.system.call
  returned : after.system.returned = before.system.returned
  author : after.author = before.author
  buffer : after.buffer = before.buffer

structure Begins : Prop where
  idle : before.system.point = .idle
  point : after.system.point = .header
  asserts : after.system.call.asserts = true
  returned : after.system.returned = before.system.returned
  author : after.author = before.author
  buffer : after.buffer = before.buffer

structure WritesHeader : Prop where
  point : before.system.point = .header
  next : after.system.point = .data
  call : after.system.call = before.system.call
  returned : after.system.returned = before.system.returned
  author : after.author = Function.update before.author (headerSlot before.system.returned)
    (some before.system.returned)
  buffer : ∀ slot ≠ headerSlot before.system.returned, after.buffer slot = before.buffer slot

structure WritesData : Prop where
  point : before.system.point = .data
  next : after.system.point = .footer
  call : after.system.call = before.system.call
  returned : after.system.returned = before.system.returned
  author : after.author = if before.system.call.request = .flush then before.author else
    Function.update before.author (dataSlot before.system.returned) (some before.system.returned)
  buffer : ∀ slot, slot ≠ dataSlot before.system.returned ∨
    before.system.call.request = .flush → after.buffer slot = before.buffer slot

structure WritesFooter : Prop where
  point : before.system.point = .footer
  next : after.system.point = .ring
  call : after.system.call = before.system.call
  returned : after.system.returned = before.system.returned
  author : after.author = Function.update before.author (footerSlot before.system.returned)
    (some before.system.returned)
  buffer : ∀ slot ≠ footerSlot before.system.returned, after.buffer slot = before.buffer slot

structure Returns : Prop where
  point : before.system.point = .wait
  next : after.system.point = .idle
  returned : after.system.returned = before.system.returned + 1
  author : after.author = before.author
  buffer : after.buffer = before.buffer

inductive Effect : Prop
  | quiet (effect : Quiet before after)
  | begins (effect : Begins before after)
  | header (effect : WritesHeader before after)
  | data (effect : WritesData before after)
  | footer (effect : WritesFooter before after)
  | returns (effect : Returns before after)

end

theorem Point.past_eq_past {point next : Point} (late : 4 ≤ point.rank) (later : 4 ≤ next.rank) :
    ∀ rank ≤ 4, next.past rank = point.past rank := by
  intro rank early
  simp only [Point.past, decide_eq_decide]
  omega

variable {before : Tracked} {response : Option (Except Error Unit)} {action : Action}

theorem buffer_of_update {after : Tracked} {slot : Fin queueSize} {desc : Desc}
    (descriptors : after.system.state.descriptors =
      Function.update before.system.state.descriptors slot desc) :
    ∀ other ≠ slot, after.buffer other = before.buffer other := by
  intro other different
  rw [Tracked.buffer, descriptors, Function.update_of_ne different, Tracked.buffer]

theorem effect_of_drive {after : Tracked} (aligned : Aligned before.system)
    (stepped : trackedStep before .drive = .ok (response, after)) : Effect before after := by
  rcases before with ⟨⟨state, point, call, nextDesc, header, status, returned⟩, author⟩
  cases point with
  | idle =>
    cases stepped
    exact .quiet ⟨fun _ _ => rfl, rfl, rfl, rfl, rfl⟩
  | header =>
    have isHead : state.nextHead = 3 * returned % queueSize := aligned.nextHead
    have isSlot : slotOf state.nextHead = headerSlot returned := by
      rw [isHead]
      exact slotOf_mod _
    have written := modifyDesc_mod state (3 * returned)
      fun _ => headerDesc call ((state.nextHead + 1) % queueSize)
    rw [← isHead] at written
    simp only [trackedStep, step, drive, writtenSlot, written, isSlot, Exec.ok_bind,
      Exec.pure_eq_ok, Except.ok.injEq, Prod.mk.injEq] at stepped
    rcases stepped with ⟨_, rfl⟩
    exact .header ⟨rfl, rfl, rfl, rfl, rfl, buffer_of_update rfl⟩
  | data =>
    have isData : nextDesc = (3 * returned + 1) % queueSize := aligned.nextDesc rfl
    have isSlot : slotOf nextDesc = dataSlot returned := by
      rw [isData]
      exact slotOf_mod _
    have written := modifyDesc_mod state (3 * returned + 1)
      (dataDesc call ((nextDesc + 1) % queueSize))
    rw [← isData] at written
    simp only [trackedStep, step, drive, writtenSlot, written, isSlot, Exec.ok_bind,
      Exec.pure_eq_ok, Except.ok.injEq, Prod.mk.injEq] at stepped
    rcases stepped with ⟨_, rfl⟩
    refine .data ⟨rfl, rfl, rfl, rfl, ?_, ?_⟩
    · by_cases isFlush : call.request = .flush
      · simp [isFlush]
      · simp [isFlush]
    · intro slot different
      by_cases same : slot = dataSlot returned
      · have isFlush : call.request = .flush := different.resolve_left (not_not.mpr same)
        subst same
        simp [Tracked.buffer, dataSlot, dataDesc, isFlush]
      · exact buffer_of_update rfl slot same
  | footer =>
    have isFooter : nextDesc = (3 * returned + 2) % queueSize := aligned.nextDesc rfl
    have isSlot : slotOf nextDesc = footerSlot returned := by
      rw [isFooter]
      exact slotOf_mod _
    have written := modifyDesc_mod state (3 * returned + 2) fun _ => footerDesc call
    rw [← isFooter] at written
    simp only [trackedStep, step, drive, writtenSlot, written, isSlot, Exec.ok_bind,
      Exec.pure_eq_ok, Except.ok.injEq, Prod.mk.injEq] at stepped
    rcases stepped with ⟨_, rfl⟩
    exact .footer ⟨rfl, rfl, rfl, rfl, rfl, buffer_of_update rfl⟩
  | ring =>
    cases stepped
    exact .quiet ⟨@Point.past_eq_past .ring .index (by decide) (by decide), rfl, rfl, rfl, rfl⟩
  | index =>
    cases stepped
    exact .quiet ⟨@Point.past_eq_past .index .head (by decide) (by decide), rfl, rfl, rfl, rfl⟩
  | head =>
    cases stepped
    exact .quiet ⟨@Point.past_eq_past .head .notify (by decide) (by decide), rfl, rfl, rfl, rfl⟩
  | notify =>
    cases stepped
    exact .quiet ⟨@Point.past_eq_past .notify .wait (by decide) (by decide), rfl, rfl, rfl, rfl⟩
  | wait =>
    by_cases owned : state.used.idx ≠ state.avail.idx
    · simp only [trackedStep, step, drive, owned, ne_eq, not_false_eq_true, if_true,
        Exec.ok_bind, Exec.pure_eq_ok, Except.ok.injEq, Prod.mk.injEq] at stepped
      rcases stepped with ⟨_, rfl⟩
      exact .quiet ⟨fun _ _ => rfl, rfl, rfl, rfl, rfl⟩
    · simp only [trackedStep, step, drive, owned, if_false,
        Exec.ok_bind, Exec.pure_eq_ok, Except.ok.injEq, Prod.mk.injEq] at stepped
      rcases stepped with ⟨_, rfl⟩
      exact .returns ⟨rfl, rfl, rfl, rfl, rfl⟩

theorem effect_of_step {after : Tracked} (aligned : Aligned before.system)
    (stepped : trackedStep before action = .ok (response, after)) : Effect before after := by
  cases action with
  | drive => exact effect_of_drive aligned stepped
  | request call =>
    rw [trackedStep, step, begin] at stepped
    split_ifs at stepped with idle asserts
    · cases stepped
      exact .begins ⟨idle, rfl, asserts, rfl, rfl, rfl⟩
    · cases stepped
    · cases stepped
      exact .quiet ⟨fun _ _ => rfl, rfl, rfl, rfl, rfl⟩
  | complete status length =>
    rw [trackedStep, step, complete] at stepped
    split_ifs at stepped
    · cases stepped
      exact .quiet ⟨fun _ _ => rfl, rfl, rfl, rfl, rfl⟩
    · cases stepped
      exact .quiet ⟨fun _ _ => rfl, rfl, rfl, rfl, rfl⟩

/-! ## The invariant -/

structure Pending (tracked : Tracked) (k : Nat) : Prop where
  author : tracked.author (dataSlot k) = staleAuthor k
  buffer : k < 5 → tracked.buffer (dataSlot k) = (0, 0)

theorem Pending.of_same {after : Tracked} {k : Nat} (pending : Pending before k)
    (author : after.author (dataSlot k) = before.author (dataSlot k))
    (buffer : after.buffer (dataSlot k) = before.buffer (dataSlot k)) : Pending after k :=
  ⟨author.trans pending.author, fun early => buffer.trans (pending.buffer early)⟩

/-- Who has written the descriptors of the current request, as far as it has got, and
those that the next four requests will use for their data. -/
structure Authored (tracked : Tracked) : Prop where
  aligned : Aligned tracked.system
  asserts : tracked.system.point.past 1 = true → tracked.system.call.asserts = true
  ahead : ∀ ahead, 1 ≤ ahead → ahead < 5 → Pending tracked (tracked.system.returned + ahead)
  pending : tracked.system.point.past 3 = false ∨ tracked.system.call.request = .flush →
    Pending tracked tracked.system.returned
  header : tracked.system.point.past 2 = true →
    tracked.author (headerSlot tracked.system.returned) = some tracked.system.returned
  data : tracked.system.point.past 3 = true → tracked.system.call.request ≠ .flush →
    tracked.author (dataSlot tracked.system.returned) = some tracked.system.returned
  footer : tracked.system.point.past 4 = true →
    tracked.author (footerSlot tracked.system.returned) = some tracked.system.returned

theorem authored_initial : Authored .initial where
  aligned := aligned_initial
  asserts := fun impossible => absurd impossible (by decide)
  ahead := fun ahead _ before =>
    ⟨(if_pos ((Nat.zero_add ahead).symm ▸ before)).symm, fun _ => rfl⟩
  pending := fun _ => ⟨rfl, fun _ => rfl⟩
  header := fun impossible => absurd impossible (by decide)
  data := fun impossible => absurd impossible (by decide)
  footer := fun impossible => absurd impossible (by decide)

theorem Authored.ahead_of_write {after : Tracked} (authored : Authored before)
    (returned : after.system.returned = before.system.returned)
    (kept : ∀ slot, slot ≠ headerSlot before.system.returned →
      slot ≠ dataSlot before.system.returned → slot ≠ footerSlot before.system.returned →
      after.author slot = before.author slot ∧ after.buffer slot = before.buffer slot) :
    ∀ ahead, 1 ≤ ahead → ahead < 5 → Pending after (after.system.returned + ahead) := by
  intro ahead behind inFront
  rcases dataSlot_ahead_ne before.system.returned behind inFront with
    ⟨notHeader, notData, notFooter⟩
  rcases kept _ notHeader notData notFooter with ⟨author, buffer⟩
  rw [returned]
  exact (authored.ahead ahead behind inFront).of_same author buffer

theorem Authored.asserts_of_call {after : Tracked} (authored : Authored before)
    (call : after.system.call = before.system.call)
    (begun : before.system.point.past 1 = true) : after.system.call.asserts = true := by
  rw [call]
  exact authored.asserts begun

section

variable {before after : Tracked} (authored : Authored before) (aligned : Aligned after.system)
include authored aligned

theorem Authored.after_quiet (effect : Quiet before after) : Authored after := by
  rcases effect with ⟨past, call, returned, author, buffer⟩
  refine ⟨aligned, ?_, ?_, ?_, ?_, ?_, ?_⟩
  · rw [past 1 (by decide), call]
    exact authored.asserts
  · apply authored.ahead_of_write returned
    intro slot _ _ _
    rw [author, buffer]
    exact ⟨rfl, rfl⟩
  · rw [past 3 (by decide), call, returned]
    intro unwritten
    exact (authored.pending unwritten).of_same (by rw [author]) (by rw [buffer])
  · rw [past 2 (by decide), author, returned]
    exact authored.header
  · rw [past 3 (by decide), call, author, returned]
    exact authored.data
  · rw [past 4 (by decide), author, returned]
    exact authored.footer

theorem Authored.after_begins (effect : Begins before after) : Authored after := by
  rcases effect with ⟨idle, point, asserts, returned, author, buffer⟩
  refine ⟨aligned, fun _ => asserts, ?_, ?_, ?_, ?_, ?_⟩
  · apply authored.ahead_of_write returned
    intro slot _ _ _
    rw [author, buffer]
    exact ⟨rfl, rfl⟩
  · intro _
    rw [returned]
    apply (authored.pending (.inl _)).of_same (by rw [author]) (by rw [buffer])
    rw [idle]
    rfl
  all_goals
    rw [point]
    exact fun impossible => absurd impossible (by decide)

theorem Authored.after_header (effect : WritesHeader before after) : Authored after := by
  rcases effect with ⟨point, next, call, returned, author, buffer⟩
  refine ⟨aligned, fun _ => authored.asserts_of_call call (by rw [point]; rfl), ?_, ?_, ?_, ?_, ?_⟩
  · apply authored.ahead_of_write returned
    intro slot notHeader _ _
    rw [author, Function.update_of_ne notHeader]
    exact ⟨rfl, buffer slot notHeader⟩
  · intro _
    have notHeader := (headerSlot_ne_dataSlot before.system.returned).symm
    rw [returned]
    apply (authored.pending (.inl _)).of_same _ (buffer _ notHeader)
    · rw [point]
      rfl
    · rw [author, Function.update_of_ne notHeader]
  · intro _
    rw [author, returned, Function.update_self]
  all_goals
    rw [next]
    exact fun impossible => absurd impossible (by decide)

theorem Authored.after_data (effect : WritesData before after) : Authored after := by
  rcases effect with ⟨point, next, call, returned, author, buffer⟩
  have header := authored.header (by rw [point]; rfl)
  have others : ∀ slot ≠ dataSlot before.system.returned,
      after.author slot = before.author slot := by
    intro slot notData
    rw [author]
    split_ifs
    · rfl
    · exact Function.update_of_ne notData ..
  refine ⟨aligned, fun _ => authored.asserts_of_call call (by rw [point]; rfl), ?_, ?_, ?_, ?_, ?_⟩
  · apply authored.ahead_of_write returned
    intro slot _ notData _
    exact ⟨others slot notData, buffer slot (.inl notData)⟩
  · intro unwritten
    rw [next, call] at unwritten
    have isFlush := unwritten.resolve_left (by decide)
    rw [returned]
    apply (authored.pending (.inr isFlush)).of_same _ (buffer _ (.inr isFlush))
    rw [author, if_pos isFlush]
  · intro _
    rw [returned, others _ (headerSlot_ne_dataSlot _), header]
  · intro _ notFlush
    rw [call] at notFlush
    rw [returned, author, if_neg notFlush, Function.update_self]
  · rw [next]
    exact fun impossible => absurd impossible (by decide)

theorem Authored.after_footer (effect : WritesFooter before after) : Authored after := by
  rcases effect with ⟨point, next, call, returned, author, buffer⟩
  have others : ∀ slot ≠ footerSlot before.system.returned,
      after.author slot = before.author slot := by
    intro slot notFooter
    rw [author]
    exact Function.update_of_ne notFooter ..
  have notFooter := dataSlot_ne_footerSlot before.system.returned
  refine ⟨aligned, fun _ => authored.asserts_of_call call (by rw [point]; rfl), ?_, ?_, ?_, ?_, ?_⟩
  · apply authored.ahead_of_write returned
    intro slot _ _ notFooter
    exact ⟨others slot notFooter, buffer slot notFooter⟩
  · intro unwritten
    rw [next, call] at unwritten
    have isFlush := unwritten.resolve_left (by decide)
    rw [returned]
    exact (authored.pending (.inr isFlush)).of_same (others _ notFooter) (buffer _ notFooter)
  · intro _
    rw [returned, others _ (headerSlot_ne_footerSlot _)]
    apply authored.header
    rw [point]
    rfl
  · intro _ notFlush
    rw [call] at notFlush
    rw [returned, others _ notFooter]
    apply authored.data _ notFlush
    rw [point]
    rfl
  · intro _
    rw [author, returned, Function.update_self]

theorem Authored.after_returns (effect : Returns before after) : Authored after := by
  rcases effect with ⟨point, next, returned, author, buffer⟩
  have isHeader := authored.header (by rw [point]; rfl)
  -- The data descriptors of the next requests: four are known, and the fifth is the
  -- header descriptor of the request that returns.
  have all : ∀ ahead, ahead < 5 → Pending after (after.system.returned + ahead) := by
    intro ahead inFront
    rw [returned, Nat.add_assoc]
    by_cases last : ahead = 4
    · subst last
      refine ⟨?_, fun early => absurd early (by omega)⟩
      rw [author]
      rw [dataSlot_add_five, isHeader, staleAuthor, if_neg (by omega)]
      rfl
    · apply (authored.ahead (1 + ahead) (by omega) (by omega)).of_same
      · rw [author]
      · rw [buffer]
  refine ⟨aligned, ?_, fun ahead _ inFront => all ahead inFront, fun _ => all 0 (by decide),
    ?_, ?_, ?_⟩
  all_goals
    rw [next]
    exact fun impossible => absurd impossible (by decide)

theorem Authored.after_effect (effect : Effect before after) : Authored after := by
  cases effect with
  | quiet effect => exact authored.after_quiet aligned effect
  | begins effect => exact authored.after_begins aligned effect
  | header effect => exact authored.after_header aligned effect
  | data effect => exact authored.after_data aligned effect
  | footer effect => exact authored.after_footer aligned effect
  | returns effect => exact authored.after_returns aligned effect

end

theorem Authored.after_step {after : Tracked} (authored : Authored before)
    (stepped : trackedStep before action = .ok (response, after)) : Authored after := by
  refine authored.after_effect ?_ (effect_of_step authored.aligned stepped)
  rw [trackedStep] at stepped
  cases outcome : step before.system action with
  | error fault =>
    rw [outcome] at stepped
    cases stepped
  | ok result =>
    rw [outcome] at stepped
    cases stepped
    exact (authored.aligned.after_step outcome).1

theorem Authored.step_returns {tracked : Tracked} (authored : Authored tracked)
    (valid : action.Valid) :
    ∃ response next, trackedStep tracked action = .ok (response, next) ∧ Authored next := by
  rcases authored.aligned.step_returns valid with ⟨response, system, stepped⟩
  have returned : ∃ next, trackedStep tracked action = .ok (response, next) := by
    rw [trackedStep, stepped]
    exact ⟨_, rfl⟩
  rcases returned with ⟨next, returned⟩
  exact ⟨response, next, returned, authored.after_step returned⟩

/-! ## The published chain -/

theorem slotOf_val (slot : Fin queueSize) : slotOf slot.val = slot :=
  Fin.ext (Nat.mod_eq_of_lt slot.isLt)

theorem Aligned.publishedHead {system : System} (aligned : Aligned system)
    (published : system.point.published = true) :
    system.publishedHead = headerSlot system.returned := by
  have index : system.state.avail.idx - 1 = UInt16.ofNat system.returned := by
    rw [aligned.available, published, UInt16.ofNat_add]
    exact UInt16.add_sub_cancel _ _
  rw [System.publishedHead, index, slotOf_idx, (aligned.chained published).ring]
  exact slotOf_mod _

theorem Chained.inChain_iff {state : DriverState} {k : Nat} {call : Call}
    (chained : Chained state k call) (slot : Fin queueSize) :
    InChain state (headerSlot k) slot ↔
      slot = headerSlot k ∨ slot = dataSlot k ∨ slot = footerSlot k := by
  have data : slotOf (state.descriptors (headerSlot k)).next.toNat = dataSlot k := by
    rw [chained.headerNext.2, slotOf_val]
  have footer : slotOf (state.descriptors (dataSlot k)).next.toNat = footerSlot k := by
    rw [chained.dataNext.2, slotOf_val]
  constructor
  · intro inChain
    induction inChain with
    | head => exact .inl rfl
    | next _ hasNext induction =>
      rcases induction with rfl | rfl | rfl
      · exact .inr (.inl data)
      · exact .inr (.inr footer)
      · exact absurd hasNext chained.footerNext
  · have toData : InChain state (headerSlot k) (dataSlot k) :=
      data ▸ .next .head chained.headerNext.1
    rintro (rfl | rfl | rfl)
    · exact .head
    · exact toData
    · exact footer ▸ .next toData chained.dataNext.1

theorem Call.data_of_asserts {call : Call} (asserts : call.asserts = true)
    (notFlush : call.request ≠ .flush) : ∃ slice, call.data = some slice ∧ slice.length = 512 := by
  rcases Bool.or_eq_true_iff.mp asserts with isFlush | isData
  · exact absurd (beq_iff_eq.mp isFlush) notFlush
  · cases isSlice : call.data with
    | none =>
      rw [isSlice] at isData
      cases isData
    | some slice =>
      rw [isSlice] at isData
      exact ⟨slice, rfl, beq_iff_eq.mp isData⟩

theorem Authored.ownBuffers_iff {tracked : Tracked} (authored : Authored tracked)
    (published : tracked.system.point.published = true) :
    OwnBuffers tracked ↔ (tracked.system.call.request = .flush → tracked.system.returned < 5) := by
  have past : ∀ rank ≤ 6, tracked.system.point.past rank = true := by
    intro rank earlier
    simp only [Point.published, Point.past, decide_eq_true_eq] at published ⊢
    omega
  have chained := authored.aligned.chained published
  have header : tracked.system.call.Owns (tracked.buffer (headerSlot tracked.system.returned)) :=
    .inl (Prod.ext chained.headerBuffer.1 chained.headerBuffer.2)
  have footer : tracked.system.call.Owns (tracked.buffer (footerSlot tracked.system.returned)) :=
    .inr (.inr (Prod.ext chained.footerBuffer.1 chained.footerBuffer.2))
  have isData : InChain tracked.system.state tracked.system.publishedHead
      (dataSlot tracked.system.returned) := by
    rw [authored.aligned.publishedHead published, chained.inChain_iff]
    exact .inr (.inl rfl)
  constructor
  · intro own isFlush
    have pending := authored.pending (.inr isFlush)
    by_contra late
    have author := pending.author
    rw [staleAuthor, if_neg late] at author
    rcases own _ isData with ⟨current, _⟩ | ⟨none, _⟩
    · rw [author] at current
      have same := Option.some.inj current
      omega
    · rw [author] at none
      cases none
  · intro early slot inChain
    rw [authored.aligned.publishedHead published, chained.inChain_iff] at inChain
    rcases inChain with rfl | rfl | rfl
    · exact .inl ⟨authored.header (past 2 (by decide)), header⟩
    · by_cases isFlush : tracked.system.call.request = .flush
      · have pending := authored.pending (.inr isFlush)
        right
        exact ⟨pending.author.trans (if_pos (early isFlush)), pending.buffer (early isFlush)⟩
      · rcases Call.data_of_asserts (authored.asserts (past 1 (by decide))) isFlush with
          ⟨slice, isSlice, length⟩
        rcases chained.dataBuffer slice isSlice isFlush with ⟨address, size⟩
        left
        refine ⟨authored.data (past 3 (by decide)) isFlush, .inr (.inl ?_)⟩
        exact ⟨slice, isFlush, isSlice, length, Prod.ext address size⟩
    · exact .inl ⟨authored.footer (past 4 (by decide)), footer⟩

/-- In every interleaving of valid calls, steps of the driver and answers of the device,
a published request describes its own memory exactly if it is a read, a write or one of
the first five requests. -/
theorem ownBuffers_along_requests (actions : List Action)
    (valid : ∀ action ∈ actions, action.Valid) :
    Machine.Always trackedStep
      (fun tracked => tracked.system.point.published = true →
        (OwnBuffers tracked ↔
          (tracked.system.call.request = .flush → tracked.system.returned < 5)))
      .initial actions := by
  apply Machine.always_of_preserved Authored _ Action.Valid _ _ valid authored_initial
  · intro tracked authored published
    exact authored.ownBuffers_iff published
  · intro tracked action authored isValid
    exact authored.step_returns isValid

theorem ownBuffers_along_requests_read :
    Machine.Always trackedStep
      (fun tracked => tracked.system.point.published = true →
        (OwnBuffers tracked ↔
          (tracked.system.call.request = .flush → tracked.system.returned < 5)))
      .initial (.request ⟨7, some ⟨0x300000, 512⟩, .read, 0x7000, 0x7010⟩ ::
        List.replicate 7 .drive) :=
  ownBuffers_along_requests _ (by simp [Action.Valid, Call.Valid])

/-! ## A flush after five reads -/

def sixthFlush : List Action :=
  (List.replicate 5
      (⟨⟨7, some ⟨0x300000, 512⟩, .read, 0x7000, 0x7010⟩, 0, 0, 513⟩ : Service)).flatMap
    Service.actions ++ [.request ⟨0, none, .flush, 0x6000, 0x6010⟩] ++ List.replicate 7 .drive

/-- The chain of the flush, which is the request with number 5, goes through the
descriptor 0. It still describes the header of the first read. -/
theorem not_ownBuffers_sixth_flush :
    ∃ responses tracked,
      Machine.run trackedStep .initial sixthFlush = .ok (responses, tracked) ∧
      tracked.system.point = .wait ∧
      tracked.system.call = ⟨0, none, .flush, 0x6000, 0x6010⟩ ∧
      InChain tracked.system.state tracked.system.publishedHead 0 ∧
      tracked.author 0 = some 0 ∧ tracked.buffer 0 = (0x7000, 16) ∧
      ¬OwnBuffers tracked := by
  cases outcome : Machine.run trackedStep .initial sixthFlush with
  | error fault =>
    have returns : (Machine.run trackedStep .initial sixthFlush).toBool = true := by
      decide +kernel
    rw [outcome] at returns
    cases returns
  | ok result =>
    rcases result with ⟨responses, tracked⟩
    have isTracked : ((Machine.run trackedStep .initial sixthFlush).toOption.elim .initial
        Prod.snd) = tracked := by rw [outcome]; rfl
    have inChain : InChain tracked.system.state tracked.system.publishedHead 0 := by
      have next : slotOf (tracked.system.state.descriptors
          tracked.system.publishedHead).next.toNat = 0 := by
        rw [← isTracked]
        decide +kernel
      rw [← next]
      apply InChain.next .head
      rw [← isTracked, Desc.hasNext]
      decide +kernel
    have author : tracked.author 0 = some 0 := by
      rw [← isTracked]
      decide +kernel
    have returned : tracked.system.returned = 5 := by
      rw [← isTracked]
      decide +kernel
    refine ⟨responses, tracked, rfl, ?_, ?_, inChain, author, ?_, ?_⟩
    · rw [← isTracked]
      decide +kernel
    · rw [← isTracked]
      decide +kernel
    · rw [← isTracked]
      decide +kernel
    · intro own
      rcases own 0 inChain with ⟨current, _⟩ | ⟨none, _⟩
      · rw [author, returned] at current
        cases current
      · rw [author] at none
        cases none

end HypervisorFirmware.Block
