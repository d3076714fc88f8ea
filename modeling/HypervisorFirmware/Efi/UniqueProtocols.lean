import HypervisorFirmware.Efi.ProtocolInstallation

/-! # One interface for each protocol of a handle

`install_protocol` and `install_multiple_protocol` look for the GUIDs of a call
among those of the handle. The GUIDs of one batch are not compared with each other. -/

namespace HypervisorFirmware.Efi.HandleDatabase

def guids (protocols : List ProtocolStruct) : List Guid := protocols.map ProtocolStruct.guid

def Distinct (db : HandleDatabase) : Prop :=
  ∀ slot ∈ db.handles, (guids (db.protocols slot)).Nodup

def Repeats (db : HandleDatabase) (call : InstallCall) : Prop :=
  ¬ (guids (db.carried call.handle ++ call.pairs)).Nodup

/-- A call that would break the uniqueness of GUIDs returns `INVALID_PARAMETER`. -/
def RefusesRepeat (db : HandleDatabase) (call : InstallCall) : Prop :=
  db.Repeats call → ∀ response next, db.step call = .ok (response, next) →
    response.status = .invalidParameter

/-- A batch that repeats a GUID has a GUID which is already on its handle, and the
handle has room for the batch. -/
def RepeatDetected (db : HandleDatabase) (call : InstallCall) : Prop :=
  match call with
  | .installProtocol _ _ _ => True
  | .installMultipleProtocol handle count _ =>
    db.Repeats call → db.carriesAny handle call.pairs ∧
      (db.carried handle).length + count ≤ maxProtocolStruct

theorem isSome_interfaceOf {guid : Guid} {protocols : List ProtocolStruct} :
    (interfaceOf guid protocols).isSome ↔ guid ∈ guids protocols := by
  rw [interfaceOf, Option.isSome_map, List.find?_isSome, guids, List.mem_map]
  simp

theorem carriesAny_iff {db : HandleDatabase} {handle : Handle} {pairs : List ProtocolStruct} :
    db.carriesAny handle pairs ↔ ∃ guid ∈ guids pairs, guid ∈ guids (db.carried handle) := by
  rw [carriesAny, List.any_eq_true]
  simp only [isSome_interfaceOf, guids, List.mem_map, exists_exists_and_eq_and]

variable {db next : HandleDatabase} {call : InstallCall} {response : InstallResponse}

theorem Distinct.carried (distinct : db.Distinct) {handle : Handle} (known : db.Known handle) :
    (guids (db.carried handle)).Nodup := by
  cases handle with
  | none => exact List.nodup_nil
  | some slot => exact distinct slot (known slot rfl)

theorem Distinct.carriesAny_of_repeats (distinct : db.Distinct) {handle : Handle} {guid : Guid}
    {interface : UInt64} (known : db.Known handle)
    (repeats : db.Repeats (.installProtocol handle guid interface)) :
    db.carriesAny handle [⟨guid, interface⟩] := by
  rw [carriesAny_iff]
  by_contra absent
  apply repeats
  simp only [guids, List.map_append, InstallCall.pairs, InstallCall.handle]
  rw [List.nodup_append]
  refine ⟨distinct.carried known, List.nodup_singleton _, ?_⟩
  intro present inHandle other inCall same
  exact absent ⟨other, inCall, same ▸ inHandle⟩

theorem installStatus_eq_invalidParameter (db : HandleDatabase) {call : InstallCall}
    (batch : call.Batch) :
    db.installStatus call = .invalidParameter ↔
      db.carriesAny call.handle call.pairs ∧
        match call with
        | .installProtocol _ _ _ => True
        | .installMultipleProtocol handle count _ =>
          (db.carried handle).length + count ≤ maxProtocolStruct := by
  have nothing : ∀ pairs, db.carriesAny none pairs = false := by
    intro pairs
    rw [Bool.eq_false_iff, Ne, carriesAny_iff]
    simp [HandleDatabase.carried, guids]
  cases given : call.handle with
  | none =>
    rw [nothing, installStatus, given]
    simp only
    split_ifs <;> simp
  | some slot =>
    cases call with
    | installProtocol handle guid interface =>
      rw [installStatus]
      simp only [given]
      split_ifs <;> simp_all
    | installMultipleProtocol handle count pair =>
      have target : handle = some slot := given
      subst target
      rw [installStatus]
      simp only [given, HandleDatabase.carried, length_pairs batch]
      split_ifs <;> simp_all

theorem Adds.distinct_iff {slot : HandleSlot} (adds : db.Adds call slot next)
    (distinct : db.Distinct) : next.Distinct ↔ ¬ db.Repeats call := by
  rw [Repeats, not_not, ← adds.protocols]
  constructor
  · intro kept
    exact kept slot ((adds.mem_handles slot).mpr (Or.inl rfl))
  · intro target other inUse
    by_cases same : other = slot
    · rw [same]
      exact target
    · rw [adds.others other same]
      exact distinct other (((adds.mem_handles other).mp inUse).resolve_left same)

theorem Distinct.step_iff (distinct : db.Distinct) (sound : db.Sound) (batch : call.Batch)
    (known : db.Known call.handle) :
    ∃ response next, db.step call = .ok (response, next) ∧ next.Sound ∧
      (next.Distinct ∧ db.RefusesRepeat call ↔ db.RepeatDetected call) := by
  rcases sound.step batch known with ⟨response, next, stepped, status, nextSound, outcome⟩
  refine ⟨response, next, stepped, nextSound, ?_⟩
  have refuses : db.RefusesRepeat call ↔
      (db.Repeats call → db.installStatus call = .invalidParameter) := by
    rw [RefusesRepeat, ← status, stepped]
    simp
  have keeps : (db.Repeats call → db.installStatus call = .invalidParameter) →
      next.Distinct := by
    intro refused
    cases outcome with
    | refused _ _ => exact distinct
    | added adds =>
      rw [adds.distinct_iff distinct]
      intro repeats
      have impossible := status.trans (refused repeats)
      cases impossible
  rw [refuses, and_iff_right_of_imp keeps, installStatus_eq_invalidParameter db batch]
  cases call with
  | installProtocol handle guid interface =>
    simp only [RepeatDetected, iff_true, and_true]
    exact distinct.carriesAny_of_repeats known
  | installMultipleProtocol handle count pair => rfl

/-- In a run of installations the GUIDs of every handle stay distinct, and every call
that would repeat one is refused, exactly when every batch that repeats a GUID has
one which is already on its handle, with room for the batch. -/
theorem distinct_iff_repeats_detected (calls : List InstallCall)
    (batches : ∀ call ∈ calls, call.Batch)
    (known : Machine.EveryStep step (fun db call => db.Known call.handle) new calls) :
    Machine.Always step Distinct new calls ∧ Machine.EveryStep step RefusesRepeat new calls ↔
      Machine.EveryStep step RepeatDetected new calls := by
  apply Machine.always_and_everyStep_iff Sound Distinct
    (fun db call => db.Known call.handle ∧ call.Batch) RefusesRepeat RepeatDetected
  · intro db call sound distinct admitted
    exact distinct.step_iff sound admitted.2 admitted.1
  · exact new_sound
  · intro slot member
    simp [mem_handles, new] at member
  · exact known.and (Machine.everyStep_of_forall batches new)

theorem distinct_iff_repeats_detected_two_calls :
    Machine.Always step Distinct new
        [.installProtocol none (Vector.replicate 16 1) 5,
          .installProtocol (some 0) (Vector.replicate 16 1) 6] ∧
      Machine.EveryStep step RefusesRepeat new
        [.installProtocol none (Vector.replicate 16 1) 5,
          .installProtocol (some 0) (Vector.replicate 16 1) 6] := by
  rw [distinct_iff_repeats_detected]
  · exact ⟨trivial, fun _ _ _ => ⟨trivial, fun _ _ _ => trivial⟩⟩
  · simp [InstallCall.Batch]
  · refine ⟨by simp [Known, InstallCall.handle], ?_⟩
    intro response next stepped
    cases stepped
    refine ⟨?_, fun _ _ _ => trivial⟩
    intro slot given
    cases given
    decide

/-- A batch with the same GUID twice is installed on a new handle. -/
theorem not_distinct_batch_of_one_guid :
    ¬ Machine.Always step Distinct new
      [.installMultipleProtocol none 2 (Vector.replicate 8 ⟨Vector.replicate 16 1, 5⟩)] := by
  rintro ⟨_, response, next, stepped, distinct⟩
  cases stepped
  exact absurd (distinct 0 (by decide)) (by decide)

end HypervisorFirmware.Efi.HandleDatabase
