import HypervisorFirmware.Efi.ProtocolInstallation

/-! # The database and its installations

The calls of a run and what they returned are all that a client knows. The queries
of the database are answered from them. -/

namespace HypervisorFirmware.Efi

abbrev History := List (InstallCall × InstallResponse)

namespace History

def installedBy (entry : InstallCall × InstallResponse) : List (HandleSlot × ProtocolStruct) :=
  match entry.2 with
  | ⟨.success, some slot⟩ => entry.1.pairs.map fun protocol => (slot, protocol)
  | _ => []

def createdBy (entry : InstallCall × InstallResponse) : Option HandleSlot :=
  match entry with
  | (call, ⟨.success, some slot⟩) => if call.handle = none then some slot else none
  | _ => none

section

variable (history : History)

def installations : List (HandleSlot × ProtocolStruct) :=
  history.flatMap installedBy

def created : List HandleSlot := history.filterMap createdBy

def earliest (slot : HandleSlot) (guid : Guid) : Option UInt64 :=
  (history.installations.find? fun installed =>
    installed.1 = slot ∧ installed.2.guid = guid).map fun installed => installed.2.interface

def carriers (guid : Guid) : List HandleSlot :=
  history.created.filter fun slot => (history.earliest slot guid).isSome

def Returned (handle : Handle) : Prop :=
  handle = none ∨ ∃ entry ∈ history, entry.2.handle = handle

def record (call : InstallCall) (response : InstallResponse) : History :=
  history ++ [(call, response)]

def protocolsOn (slot : HandleSlot) : List ProtocolStruct :=
  (history.installations.filter fun installed => installed.1 = slot).map Prod.snd

theorem earliest_eq_interfaceOf (slot : HandleSlot) (guid : Guid) :
    history.earliest slot guid = interfaceOf guid (history.protocolsOn slot) := by
  rw [earliest, interfaceOf, protocolsOn, List.find?_map, Option.map_map, List.find?_filter]
  simp [Function.comp_def]

end

/-! ## One more call -/

variable {call : InstallCall} {slot other : HandleSlot}

variable (history : History) (call : InstallCall)

theorem protocolsOn_record (response : InstallResponse) (slot : HandleSlot) :
    (history.record call response).protocolsOn slot = history.protocolsOn slot ++
      ((installedBy (call, response)).filter fun installed => installed.1 = slot).map
        Prod.snd := by
  simp [protocolsOn, installations, record]

theorem protocolsOn_refused (status : Status) (slot : HandleSlot) :
    (history.record call ⟨status, none⟩).protocolsOn slot = history.protocolsOn slot := by
  rw [protocolsOn_record]
  simp [installedBy]

theorem protocolsOn_same (slot : HandleSlot) :
    (history.record call ⟨.success, some slot⟩).protocolsOn slot =
      history.protocolsOn slot ++ call.pairs := by
  rw [protocolsOn_record]
  simp [installedBy, List.filter_map, Function.comp_def]

theorem protocolsOn_other (different : other ≠ slot) :
    (history.record call ⟨.success, some slot⟩).protocolsOn other = history.protocolsOn other := by
  rw [protocolsOn_record]
  simp [installedBy, List.filter_map, Function.comp_def, Ne.symm different]

theorem created_refused (status : Status) :
    (history.record call ⟨status, none⟩).created = history.created := by
  simp [created, record, createdBy]

theorem created_added (slot : HandleSlot) :
    (history.record call ⟨.success, some slot⟩).created =
      if call.handle = none then history.created ++ [slot] else history.created := by
  split_ifs with null
  · simp [created, record, createdBy, null]
  · simp [created, record, createdBy, null]

end History

structure Recorded where
  db : HandleDatabase
  history : History

namespace Recorded

def new : Recorded := ⟨.new, []⟩

def step (state : Recorded) (call : InstallCall) : Exec (InstallResponse × Recorded) := do
  let (response, db) ← state.db.step call
  return (response, ⟨db, state.history.record call response⟩)

/-- A call gives a null handle or one that was returned earlier. -/
def Admitted (state : Recorded) (call : InstallCall) : Prop := state.history.Returned call.handle

structure Faithful (state : Recorded) : Prop where
  sound : state.db.Sound
  created : state.history.created = state.db.handles
  protocols : ∀ slot ∈ state.db.handles, state.db.protocols slot = state.history.protocolsOn slot
  unused : ∀ slot ∉ state.db.handles, state.history.protocolsOn slot = []
  returned : ∀ entry ∈ state.history, state.db.Known entry.2.handle

theorem Faithful.new : Recorded.new.Faithful where
  sound := HandleDatabase.new_sound
  created := rfl
  protocols slot member := by
    simp [Recorded.new, HandleDatabase.mem_handles, HandleDatabase.new] at member
  unused _ _ := rfl
  returned entry member := by simp [Recorded.new] at member

variable {state next : Recorded} {call : InstallCall} {response : InstallResponse}

theorem Faithful.known (faithful : state.Faithful) (admitted : state.Admitted call) :
    state.db.Known call.handle := by
  rcases admitted with null | ⟨entry, member, same⟩
  · rw [null]
    exact fun slot impossible => nomatch impossible
  · rw [← same]
    exact faithful.returned entry member

theorem Faithful.refused (faithful : state.Faithful) (call : InstallCall) (status : Status) :
    Faithful ⟨state.db, state.history.record call ⟨status, none⟩⟩ where
  sound := faithful.sound
  created := by
    rw [History.created_refused]
    exact faithful.created
  protocols slot member := by
    rw [History.protocolsOn_refused]
    exact faithful.protocols slot member
  unused slot outside := by
    rw [History.protocolsOn_refused]
    exact faithful.unused slot outside
  returned entry member := by
    rcases List.mem_append.mp member with earlier | last
    · exact faithful.returned entry earlier
    · rw [List.mem_singleton.mp last]
      exact fun slot impossible => nomatch impossible

variable {db : HandleDatabase} {slot : HandleSlot}

theorem Faithful.carried (faithful : state.Faithful) (adds : state.db.Adds call slot db) :
    state.db.carried call.handle = state.history.protocolsOn slot := by
  cases given : call.handle with
  | none => exact (faithful.unused slot (adds.new given).1).symm
  | some target =>
    rcases adds.existing target given with ⟨rfl, inUse, _⟩
    exact faithful.protocols slot inUse

theorem Faithful.added (faithful : state.Faithful)
    (sound : db.Sound) (adds : state.db.Adds call slot db) :
    Faithful ⟨db, state.history.record call ⟨.success, some slot⟩⟩ where
  sound := sound
  created := by
    rw [History.created_added, faithful.created]
    cases given : call.handle with
    | none => exact (adds.new given).2.symm
    | some target => exact (adds.existing target given).2.2.symm
  protocols other member := by
    by_cases same : other = slot
    · rw [same, History.protocolsOn_same, ← faithful.carried adds]
      exact adds.protocols
    · rw [History.protocolsOn_other _ _ same]
      have inUse := ((adds.mem_handles other).mp member).resolve_left same
      exact (adds.others other same).trans (faithful.protocols other inUse)
  unused other outside := by
    rw [adds.mem_handles, not_or] at outside
    rw [History.protocolsOn_other _ _ outside.1]
    exact faithful.unused other outside.2
  returned entry member := by
    intro other returned
    apply (adds.mem_handles other).mpr
    rcases List.mem_append.mp member with earlier | last
    · exact Or.inr (faithful.returned entry earlier other returned)
    · rw [List.mem_singleton.mp last] at returned
      exact Or.inl (Option.some.inj returned).symm

theorem Faithful.outcome (faithful : state.Faithful) (sound : db.Sound)
    (outcome : state.db.Outcome call response db) :
    Faithful ⟨db, state.history.record call response⟩ := by
  cases outcome with
  | refused status failure => exact faithful.refused call status
  | added adds => exact faithful.added sound adds

theorem Faithful.step (faithful : state.Faithful) (batch : call.Batch)
    (admitted : state.Admitted call) :
    ∃ response next, state.step call = .ok (response, next) ∧ next.Faithful ∧
      state.db.Outcome call response next.db := by
  rcases faithful.sound.step batch (faithful.known admitted) with
    ⟨response, db, stepped, _, sound, outcome⟩
  refine ⟨response, ⟨db, state.history.record call response⟩, ?_, ?_, outcome⟩
  · rw [Recorded.step, stepped]
    rfl
  · exact faithful.outcome sound outcome

/-! ## Installations are done completely or not at all -/

/-- A call that fails changes nothing; one that succeeds adds its protocols to one
handle. -/
def AllOrNothing (state : Recorded) (call : InstallCall) : Prop :=
  ∀ response next, state.step call = .ok (response, next) →
    (response.status ≠ .success → next.db = state.db) ∧
    (response.status = .success →
      ∃ slot, response.handle = some slot ∧ state.db.Adds call slot next.db)

theorem allOrNothing_of_outcome (stepped : state.step call = .ok (response, next))
    (outcome : state.db.Outcome call response next.db) : state.AllOrNothing call := by
  intro other after stepped'
  obtain ⟨rfl, rfl⟩ : response = other ∧ next = after := by
    simpa [stepped] using stepped'
  generalize next.db = db at outcome ⊢
  cases outcome with
  | refused status failure => exact ⟨fun _ => rfl, fun success => absurd success failure⟩
  | @added slot _ adds => exact ⟨fun failure => absurd rfl failure, fun _ => ⟨slot, rfl, adds⟩⟩

/-- In every run of installations no assertion fails, the tables stay within their
bounds with every handle signed, and each call is done completely or not at all. -/
theorem installations_all_or_nothing (calls : List InstallCall)
    (batches : ∀ call ∈ calls, call.Batch)
    (admitted : Machine.EveryStep step Admitted new calls) :
    Machine.Always step (fun state => state.db.Sound) new calls ∧
      Machine.EveryStep step AllOrNothing new calls := by
  rw [Machine.always_and_everyStep_iff Faithful (fun state => state.db.Sound)
    (fun state call => state.Admitted call ∧ call.Batch) AllOrNothing (fun _ _ => True) _
    calls new Faithful.new HandleDatabase.new_sound
    (admitted.and (Machine.everyStep_of_forall batches new))]
  · exact Machine.everyStep_of_forall (fun _ _ => trivial) new
  · intro state call faithful _ admitted
    rcases faithful.step admitted.2 admitted.1 with ⟨response, next, stepped, kept, outcome⟩
    refine ⟨response, next, stepped, kept, ?_⟩
    simp only [iff_true]
    exact ⟨kept.sound, allOrNothing_of_outcome stepped outcome⟩

theorem installations_all_or_nothing_two_calls :
    Machine.Always step (fun state => state.db.Sound) new
        [.installProtocol none (Vector.replicate 16 1) 5,
          .installMultipleProtocol (some 0) 2
            (Vector.ofFn fun index => ⟨Vector.replicate 16 (.ofNat index.val), 7⟩)] ∧
      Machine.EveryStep step AllOrNothing new
        [.installProtocol none (Vector.replicate 16 1) 5,
          .installMultipleProtocol (some 0) 2
            (Vector.ofFn fun index => ⟨Vector.replicate 16 (.ofNat index.val), 7⟩)] := by
  apply installations_all_or_nothing
  · simp [InstallCall.Batch]
  · refine ⟨Or.inl rfl, ?_⟩
    intro response next stepped
    cases stepped
    exact ⟨Or.inr ⟨_, List.mem_singleton.mpr rfl, rfl⟩, fun _ _ _ => trivial⟩

/-! ## Queries agree with the installations -/

/-- The queries answer what the calls so far have installed. -/
structure Agrees (state : Recorded) : Prop where
  handleProtocol : ∀ slot ∈ state.history.created, ∀ guid,
    state.db.handleProtocol slot guid =
      .ok (match state.history.earliest slot guid with
        | none => (.notFound, 0)
        | some interface => (.success, interface))
  locateHandle : ∀ guid size buffer,
    state.db.locateHandle guid size buffer =
      .ok (if (state.history.carriers guid).length = 0 then ((.notFound, 0), buffer)
        else if size < 8 * (state.history.carriers guid).length then
          ((.bufferTooSmall, 8 * (state.history.carriers guid).length), buffer)
        else
          ((.success, 8 * (state.history.carriers guid).length),
            HandleDatabase.overwrite buffer (state.history.carriers guid)))
  carriers_nodup : ∀ guid, (state.history.carriers guid).Nodup
  locateProtocol : ∀ guid,
    state.db.locateProtocol guid =
      match state.history.carriers guid with
      | [] => .ok (.notFound, 0)
      | slot :: _ => state.db.handleProtocol slot guid

theorem Faithful.earliest (faithful : state.Faithful)
    (member : slot ∈ state.db.handles) (guid : Guid) :
    state.history.earliest slot guid = interfaceOf guid (state.db.protocols slot) := by
  rw [History.earliest_eq_interfaceOf, faithful.protocols slot member]

theorem Faithful.carriers (faithful : state.Faithful) (guid : Guid) :
    state.history.carriers guid = state.db.carrying guid := by
  rw [History.carriers, faithful.created]
  apply List.filter_congr
  intro slot member
  rw [faithful.earliest member]

theorem findSome_carrying (db : HandleDatabase) (guid : Guid) :
    (db.handles.findSome? fun slot => interfaceOf guid (db.protocols slot)) =
      match db.carrying guid with
      | [] => none
      | slot :: _ => interfaceOf guid (db.protocols slot) := by
  cases carriers : db.carrying guid with
  | nil =>
    rw [List.findSome?_eq_none_iff]
    intro slot member
    simpa using List.filter_eq_nil_iff.mp carriers slot member
  | cons slot rest =>
    rcases List.filter_eq_cons_iff.mp carriers with ⟨before, after, split, skipped, found, _⟩
    have passed : (before.findSome? fun slot => interfaceOf guid (db.protocols slot)) = none := by
      rw [List.findSome?_eq_none_iff]
      intro other member
      simpa using skipped other member
    rcases Option.isSome_iff_exists.mp found with ⟨interface, present⟩
    simp only [split, List.findSome?_append, passed, List.findSome?_cons, present, Option.none_or]

theorem Faithful.agrees (faithful : state.Faithful) : state.Agrees where
  handleProtocol slot member guid := by
    rw [faithful.created] at member
    rw [faithful.sound.handleProtocol member, faithful.earliest member]
    rfl
  locateHandle guid size buffer := by
    rw [faithful.sound.locateHandle, faithful.carriers, HandleDatabase.handleSize, Nat.mul_comm]
  carriers_nodup guid := by
    rw [faithful.carriers]
    exact (Table.nodup_slots _ _).filter _
  locateProtocol guid := by
    rw [faithful.sound.locateProtocol, findSome_carrying, faithful.carriers]
    cases carriers : state.db.carrying guid with
    | nil => rfl
    | cons slot rest =>
      have member : slot ∈ state.db.carrying guid := by simp [carriers]
      exact (faithful.sound.handleProtocol (List.mem_filter.mp member).1 guid).symm

/-- After every run of installations, on null handles and handles returned earlier,
the queries agree with the installations that succeeded. -/
theorem queries_agree_with_installations (calls : List InstallCall)
    (responses : List InstallResponse) (final : Recorded)
    (admitted : Machine.EveryStep step Admitted new calls)
    (ran : Machine.run step new calls = .ok (responses, final)) : final.Agrees := by
  apply Faithful.agrees
  apply Machine.run_invariant Faithful _ Faithful.new admitted ran
  intro state call response next faithful admitted stepped
  have batch : call.Batch := by
    rw [step] at stepped
    cases outcome : state.db.step call with
    | error fault => simp [outcome] at stepped
    | ok result => exact HandleDatabase.batch_of_step outcome
  rcases faithful.step batch admitted with ⟨_, _, stepped', kept, _⟩
  rw [stepped, Except.ok.injEq, Prod.mk.injEq] at stepped'
  rw [stepped'.2]
  exact kept

theorem queries_agree_with_installations_two_calls :
    ∃ responses final,
      Machine.run step new
        [.installProtocol none (Vector.replicate 16 1) 5,
          .installProtocol (some 0) (Vector.replicate 16 2) 6] = .ok (responses, final) ∧
      final.Agrees := by
  refine ⟨_, _, rfl, queries_agree_with_installations
    [.installProtocol none (Vector.replicate 16 1) 5,
      .installProtocol (some 0) (Vector.replicate 16 2) 6] _ _ ?_ rfl⟩
  refine ⟨Or.inl rfl, ?_⟩
  intro response next stepped
  cases stepped
  exact ⟨Or.inr ⟨_, List.mem_singleton.mpr rfl, rfl⟩, fun _ _ _ => trivial⟩

end Recorded

end HypervisorFirmware.Efi
