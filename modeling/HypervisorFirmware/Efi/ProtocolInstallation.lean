import HypervisorFirmware.Efi.HandleContents

/-! # Installing protocols

Runs of `install_protocol` and `install_multiple_protocol`: what a call adds, when
it is refused, and what holds in every database that such calls build. -/

namespace HypervisorFirmware.Efi

inductive InstallCall
  | installProtocol (handle : Handle) (guid : Guid) (interface : UInt64)
  | installMultipleProtocol (handle : Handle) (count : Nat) (pair : Vector ProtocolStruct 8)

structure InstallResponse where
  status : Status
  handle : Handle
  deriving DecidableEq

namespace InstallCall

def handle : InstallCall → Handle
  | installProtocol handle _ _ => handle
  | installMultipleProtocol handle _ _ => handle

def pairs : InstallCall → List ProtocolStruct
  | installProtocol _ guid interface => [⟨guid, interface⟩]
  | installMultipleProtocol _ count pair => pair.toList.take count

def Batch : InstallCall → Prop
  | installProtocol _ _ _ => True
  | installMultipleProtocol _ count _ => 1 ≤ count ∧ count ≤ 8

end InstallCall

namespace HandleDatabase

def step (db : HandleDatabase) : InstallCall → Exec (InstallResponse × HandleDatabase)
  | .installProtocol handle guid interface => do
      let ((status, handle), db) ← db.installProtocol handle guid interface
      return (⟨status, handle⟩, db)
  | .installMultipleProtocol handle count pair => do
      let ((status, handle), db) ← db.installMultipleProtocol handle count pair
      return (⟨status, handle⟩, db)

/-! ## Effects on the tables -/

structure Appended (db : HandleDatabase) (slot : HandleSlot) (pairs : List ProtocolStruct)
    (next : HandleDatabase) : Prop where
  count : next.protocolHandleCount = db.protocolHandleCount
  others : ∀ other, other ≠ slot → next.protocolHandle other = db.protocolHandle other
  signature : (next.protocolHandle slot).signature = (db.protocolHandle slot).signature
  protocolCount : (next.protocolHandle slot).protocolCount =
    (db.protocolHandle slot).protocolCount + pairs.length
  protocols : next.protocols slot = db.protocols slot ++ pairs

structure Created (db : HandleDatabase) (slot : HandleSlot) (next : HandleDatabase) :
    Prop where
  position : slot.val = db.protocolHandleCount
  count : next.protocolHandleCount = db.protocolHandleCount + 1
  others : ∀ other, other ≠ slot → next.protocolHandle other = db.protocolHandle other
  signature : (next.protocolHandle slot).signature = handleSignature
  protocolCount : (next.protocolHandle slot).protocolCount = 0

variable {db middle next : HandleDatabase} {slot : HandleSlot} {pairs : List ProtocolStruct}

@[simp] theorem modify_same (db : HandleDatabase) (slot : HandleSlot)
    (change : ProtocolHandle → ProtocolHandle) :
    (db.modify slot change).protocolHandle slot = change (db.protocolHandle slot) := by
  simp [modify]

theorem modify_other (db : HandleDatabase) {slot other : HandleSlot}
    (change : ProtocolHandle → ProtocolHandle) (different : other ≠ slot) :
    (db.modify slot change).protocolHandle other = db.protocolHandle other := by
  simp [modify, different]

theorem getNewHandle_created (room : db.protocolHandleCount < maxHandleStruct) :
    ∃ slot next, db.getNewHandle = (.ok slot, next) ∧ db.Created slot next := by
  refine ⟨⟨db.protocolHandleCount, room⟩, _, dif_pos room, rfl, rfl, ?_, ?_, ?_⟩
  · intro other different
    exact modify_other _ _ different
  · rw [modify_same]
  · rw [modify_same]

theorem getNewProtocol_appended (db : HandleDatabase) (slot : HandleSlot)
    (protocol : ProtocolStruct)
    (room : (db.protocolHandle slot).protocolCount < maxProtocolStruct) :
    ∃ index next, db.getNewProtocol slot = (.ok index, next) ∧
      db.Appended slot [protocol] (next.setProtocol slot index protocol) := by
  refine ⟨⟨(db.protocolHandle slot).protocolCount, room⟩, _, dif_pos room, rfl, ?_, ?_, ?_, ?_⟩
  · intro other different
    rw [setProtocol, modify_other _ _ different, modify_other _ _ different]
  · simp [setProtocol]
  · simp [setProtocol]
  · simp only [protocols, ProtocolHandle.protocols, setProtocol, modify_same,
      Table.slots_succ room, List.map_append, List.map_cons, List.map_nil,
      Function.update_self, Function.update_idem]
    congr 1
    apply List.map_congr_left
    intro earlier member
    rw [Function.update_of_ne]
    intro equal
    have before := Table.mem_slots.mp member
    rw [equal] at before
    exact Nat.lt_irrefl _ before

theorem Appended.nil (db : HandleDatabase) (slot : HandleSlot) : db.Appended slot [] db where
  count := rfl
  others _ _ := rfl
  signature := rfl
  protocolCount := rfl
  protocols := (List.append_nil _).symm

theorem Appended.trans {more : List ProtocolStruct} (first : db.Appended slot pairs middle)
    (second : middle.Appended slot more next) : db.Appended slot (pairs ++ more) next where
  count := second.count.trans first.count
  others other different := (second.others other different).trans (first.others other different)
  signature := second.signature.trans first.signature
  protocolCount := by
    rw [second.protocolCount, first.protocolCount, List.length_append, Nat.add_assoc]
  protocols := by rw [second.protocols, first.protocols, List.append_assoc]

theorem addProtocols_appended
    (room : (db.protocolHandle slot).protocolCount + pairs.length ≤ maxProtocolStruct) :
    ∃ next, addProtocols slot pairs db = .ok next ∧ db.Appended slot pairs next := by
  induction pairs generalizing db with
  | nil => exact ⟨db, rfl, Appended.nil db slot⟩
  | cons protocol rest induction =>
    rw [List.length_cons] at room
    rcases db.getNewProtocol_appended slot protocol (by omega) with
      ⟨index, middle, added, first⟩
    have roomLeft : ((middle.setProtocol slot index protocol).protocolHandle slot).protocolCount
        + rest.length ≤ maxProtocolStruct := by
      rw [first.protocolCount, List.length_singleton]
      omega
    rcases induction roomLeft with ⟨next, ran, second⟩
    refine ⟨next, ?_, first.trans second⟩
    rw [addProtocols, added]
    exact ran

/-! ## Effects on the lists -/

theorem Appended.handles (appended : db.Appended slot pairs next) : next.handles = db.handles := by
  rw [HandleDatabase.handles, HandleDatabase.handles, appended.count]

theorem Appended.protocols_other (appended : db.Appended slot pairs next) {other : HandleSlot}
    (different : other ≠ slot) : next.protocols other = db.protocols other := by
  rw [HandleDatabase.protocols, HandleDatabase.protocols, appended.others other different]

theorem Appended.sound (appended : db.Appended slot pairs next) (sound : db.Sound)
    (room : (db.protocolHandle slot).protocolCount + pairs.length ≤ maxProtocolStruct) :
    next.Sound where
  fits := by rw [appended.count]; exact sound.fits
  signed other member := by
    rw [appended.handles] at member
    by_cases same : other = slot
    · rw [same, appended.signature, ← same]
      exact sound.signed other member
    · rw [appended.others other same]
      exact sound.signed other member
  protocolsFit other := by
    by_cases same : other = slot
    · rw [same, appended.protocolCount]
      exact room
    · rw [appended.others other same]
      exact sound.protocolsFit other

section

variable (created : db.Created slot next)

include created

theorem Created.handles : next.handles = db.handles ++ [slot] := by
  have inside : db.protocolHandleCount < maxHandleStruct := created.position ▸ slot.isLt
  rw [HandleDatabase.handles, created.count, Table.slots_succ inside]
  congr 2
  exact Fin.ext created.position.symm

theorem Created.fresh : slot ∉ db.handles := by
  rw [mem_handles, created.position]
  exact Nat.lt_irrefl _

theorem Created.protocols_other {other : HandleSlot} (different : other ≠ slot) :
    next.protocols other = db.protocols other := by
  rw [HandleDatabase.protocols, HandleDatabase.protocols, created.others other different]

theorem Created.protocols : next.protocols slot = [] := by
  rw [HandleDatabase.protocols, ProtocolHandle.protocols, created.protocolCount]
  rfl

theorem Created.sound (sound : db.Sound) : next.Sound where
  fits := by
    rw [created.count, ← created.position]
    exact slot.isLt
  signed other member := by
    by_cases same : other = slot
    · rw [same, created.signature]
    · rw [created.others other same]
      rw [created.handles, List.mem_append, List.mem_singleton] at member
      exact sound.signed other (member.resolve_right same)
  protocolsFit other := by
    by_cases same : other = slot
    · rw [same, created.protocolCount]
      exact Nat.zero_le _
    · rw [created.others other same]
      exact sound.protocolsFit other

end

/-! ## What a call does -/

def carried (db : HandleDatabase) : Handle → List ProtocolStruct
  | none => []
  | some slot => db.protocols slot

def carriesAny (db : HandleDatabase) (handle : Handle) (pairs : List ProtocolStruct) : Bool :=
  pairs.any fun protocol => (interfaceOf protocol.guid (db.carried handle)).isSome

/-- The status that a call returns. A single installation looks for the GUID before
it looks for room, a batch the other way round. -/
def installStatus (db : HandleDatabase) (call : InstallCall) : Status :=
  match call.handle with
  | none => if db.handles.length < maxHandleStruct then .success else .outOfResources
  | some slot =>
    let full := maxProtocolStruct < (db.protocols slot).length + call.pairs.length
    match call with
    | .installProtocol .. =>
      if db.carriesAny slot call.pairs then .invalidParameter
      else if full then .outOfResources
      else .success
    | .installMultipleProtocol .. =>
      if full then .outOfResources
      else if db.carriesAny slot call.pairs then .invalidParameter
      else .success

/-- The protocols of a call have been added to one handle, which is new if and only
if the call was given none. -/
structure Adds (db : HandleDatabase) (call : InstallCall) (slot : HandleSlot)
    (next : HandleDatabase) : Prop where
  new : call.handle = none → slot ∉ db.handles ∧ next.handles = db.handles ++ [slot]
  existing : ∀ given, call.handle = some given →
    slot = given ∧ given ∈ db.handles ∧ next.handles = db.handles
  protocols : next.protocols slot = db.carried call.handle ++ call.pairs
  others : ∀ other, other ≠ slot → next.protocols other = db.protocols other

inductive Outcome (db : HandleDatabase) (call : InstallCall) :
    InstallResponse → HandleDatabase → Prop
  | refused (status : Status) : status ≠ .success → Outcome db call ⟨status, none⟩ db
  | added {slot : HandleSlot} {next : HandleDatabase} :
      db.Adds call slot next → Outcome db call ⟨.success, some slot⟩ next

def Known (db : HandleDatabase) (handle : Handle) : Prop := ∀ slot ∈ handle, slot ∈ db.handles

theorem Sound.anyInstalled (sound : db.Sound) (member : slot ∈ db.handles)
    (pairs : List ProtocolStruct) :
    db.anyInstalled slot pairs = .ok (db.carriesAny slot pairs) := by
  induction pairs with
  | nil => rfl
  | cons protocol rest induction =>
    rw [HandleDatabase.anyInstalled, carriesAny, List.any_cons]
    rcases sound.getProtocol_cases member protocol.guid with
      ⟨looked, listed⟩ | ⟨index, looked, listed⟩
    · rw [looked, carried, listed]
      exact induction
    · rw [looked, carried, listed]
      rfl

theorem Sound.getHandle (sound : db.Sound) (member : slot ∈ db.handles) :
    db.getHandle (some slot) = .ok slot :=
  if_neg (not_not_intro (sound.signed slot member))

theorem Sound.length_handles (sound : db.Sound) :
    db.handles.length = db.protocolHandleCount := Table.length_slots sound.fits

variable {call : InstallCall} {pair : Vector ProtocolStruct 8}

theorem Appended.adds (given : call.handle = some slot)
    (member : slot ∈ db.handles) (appended : db.Appended slot call.pairs next) :
    db.Adds call slot next where
  new null := by simp [given] at null
  existing other same := by
    rw [given, Option.some.injEq] at same
    exact ⟨same, same ▸ member, appended.handles⟩
  protocols := by
    rw [given]
    exact appended.protocols
  others other different := appended.protocols_other different

theorem Created.adds (null : call.handle = none)
    (created : db.Created slot middle) (appended : middle.Appended slot call.pairs next) :
    db.Adds call slot next where
  new _ := ⟨created.fresh, appended.handles.trans created.handles⟩
  existing given same := by simp [null] at same
  protocols := by
    rw [appended.protocols, created.protocols, null]
    rfl
  others other different :=
    (appended.protocols_other different).trans (created.protocols_other different)

theorem Adds.mem_handles (adds : db.Adds call slot next)
    (other : HandleSlot) : other ∈ next.handles ↔ other = slot ∨ other ∈ db.handles := by
  cases given : call.handle with
  | none =>
    rw [(adds.new given).2, List.mem_append, List.mem_singleton]
    exact or_comm
  | some target =>
    rcases adds.existing target given with ⟨rfl, inUse, same⟩
    rw [same]
    constructor
    · exact Or.inr
    · rintro (rfl | member)
      · exact inUse
      · exact member

theorem Sound.addProtocols_new (sound : db.Sound) (call : InstallCall)
    (null : call.handle = none) (few : call.pairs.length ≤ 8)
    (created : db.Created slot middle) :
    ∃ next, addProtocols slot call.pairs middle = .ok next ∧ next.Sound ∧
      db.Adds call slot next := by
  have room : (middle.protocolHandle slot).protocolCount + call.pairs.length ≤
      maxProtocolStruct := by
    rw [created.protocolCount, Nat.zero_add]
    exact few.trans (by decide)
  rcases addProtocols_appended room with ⟨next, ran, appended⟩
  exact ⟨next, ran, appended.sound (created.sound sound) room, created.adds null appended⟩

theorem Sound.addProtocols_existing (sound : db.Sound) (call : InstallCall)
    (given : call.handle = some slot) (member : slot ∈ db.handles)
    (fits : (db.protocols slot).length + call.pairs.length ≤ maxProtocolStruct) :
    ∃ next, addProtocols slot call.pairs db = .ok next ∧ next.Sound ∧ db.Adds call slot next := by
  rw [sound.length_protocols slot] at fits
  rcases addProtocols_appended fits with ⟨next, ran, appended⟩
  exact ⟨next, ran, appended.sound sound fits, appended.adds given member⟩

theorem getNewProtocol_of_addProtocols {protocol : ProtocolStruct}
    (ran : addProtocols slot [protocol] db = .ok next) :
    ∃ index middle, db.getNewProtocol slot = (.ok index, middle) ∧
      middle.setProtocol slot index protocol = next := by
  rw [addProtocols] at ran
  split at ran
  · cases ran
  · rename_i index middle added
    exact ⟨index, middle, added, Except.ok.inj ran⟩

theorem getNewHandle_full (full : ¬ db.protocolHandleCount < maxHandleStruct) :
    db.getNewHandle = (.error .outOfResources, db) := dif_neg full

theorem getNewProtocol_full (full : ¬ (db.protocolHandle slot).protocolCount < maxProtocolStruct) :
    db.getNewProtocol slot = (.error .outOfResources, db) := dif_neg full

def Installs (db : HandleDatabase) (call : InstallCall)
    (result : Exec (InstallResponse × HandleDatabase)) : Prop :=
  ∃ response next, result = .ok (response, next) ∧ response.status = db.installStatus call ∧
    next.Sound ∧ db.Outcome call response next

theorem Installs.refused (sound : db.Sound) {status : Status}
    (expected : db.installStatus call = status) (failure : status ≠ .success) :
    db.Installs call (.ok (⟨status, none⟩, db)) :=
  ⟨_, _, rfl, expected.symm, sound, .refused status failure⟩

theorem Installs.added (expected : db.installStatus call = .success)
    (sound : next.Sound) (adds : db.Adds call slot next) :
    db.Installs call (.ok (⟨.success, some slot⟩, next)) :=
  ⟨_, _, rfl, expected.symm, sound, .added adds⟩

theorem Sound.installProtocol_new (sound : db.Sound) (guid : Guid) (interface : UInt64) :
    db.Installs (.installProtocol none guid interface)
      (db.step (.installProtocol none guid interface)) := by
  have status : db.installStatus (.installProtocol none guid interface) =
      if db.protocolHandleCount < maxHandleStruct then .success else .outOfResources := by
    rw [← sound.length_handles]
    rfl
  rw [step, installProtocol, currentHandle, HandleDatabase.getHandle]
  by_cases room : db.protocolHandleCount < maxHandleStruct
  · rw [if_pos room] at status
    rcases getNewHandle_created room with ⟨slot, middle, gotHandle, created⟩
    rcases sound.addProtocols_new (.installProtocol none guid interface) rfl
      (by simp [InstallCall.pairs]) created with ⟨next, ran, nextSound, adds⟩
    rcases getNewProtocol_of_addProtocols ran with ⟨index, last, gotProtocol, rfl⟩
    have absent : interfaceOf guid (middle.protocols slot) = none := by
      rw [created.protocols]
      rfl
    have member : slot ∈ middle.handles := by simp [created.handles]
    rcases (created.sound sound).getProtocol_cases member guid with
      ⟨looked, _⟩ | ⟨_, _, present⟩
    · simp only [gotHandle, looked, gotProtocol, Exec.ok_bind, Exec.pure_eq_ok]
      exact .added status nextSound adds
    · simp [absent] at present
  · rw [if_neg room] at status
    simp only [getNewHandle_full room, Exec.ok_bind, Exec.pure_eq_ok]
    exact .refused sound status (by decide)

theorem Sound.installProtocol_existing (sound : db.Sound) (member : slot ∈ db.handles)
    (guid : Guid) (interface : UInt64) :
    db.Installs (.installProtocol slot guid interface)
      (db.step (.installProtocol slot guid interface)) := by
  have status : db.installStatus (.installProtocol slot guid interface) =
      if (interfaceOf guid (db.protocols slot)).isSome then .invalidParameter
      else if maxProtocolStruct < (db.protocols slot).length + 1 then .outOfResources
      else .success := by
    simp [installStatus, carriesAny, carried, InstallCall.handle, InstallCall.pairs]
  rw [step, installProtocol, currentHandle, sound.getHandle member]
  rcases sound.getProtocol_cases member guid with ⟨looked, absent⟩ | ⟨index, looked, present⟩
  · rw [absent] at status
    by_cases full : maxProtocolStruct < (db.protocols slot).length + 1
    · rw [if_neg (by decide), if_pos full] at status
      rw [sound.length_protocols slot] at full
      have full : ¬ (db.protocolHandle slot).protocolCount < maxProtocolStruct := by omega
      simp only [looked, getNewProtocol_full full, Exec.ok_bind, Exec.pure_eq_ok]
      exact .refused sound status (by decide)
    · rw [if_neg (by decide), if_neg full] at status
      rcases sound.addProtocols_existing (.installProtocol slot guid interface) rfl member
        (Nat.le_of_not_lt full) with ⟨next, ran, nextSound, adds⟩
      rcases getNewProtocol_of_addProtocols ran with ⟨index, last, gotProtocol, rfl⟩
      simp only [looked, gotProtocol, Exec.ok_bind, Exec.pure_eq_ok]
      exact .added status nextSound adds
  · rw [present, if_pos Option.isSome_some] at status
    simp only [looked, Exec.ok_bind, Exec.pure_eq_ok]
    exact .refused sound status (by decide)

theorem length_pairs {handle : Handle} {count : Nat}
    (batch : (InstallCall.installMultipleProtocol handle count pair).Batch) :
    (InstallCall.installMultipleProtocol handle count pair).pairs.length = count := by
  simp [InstallCall.pairs, Nat.min_eq_left batch.2]

theorem Sound.installMultipleProtocol_new (sound : db.Sound) {count : Nat}
    (batch : (InstallCall.installMultipleProtocol none count pair).Batch) :
    db.Installs (.installMultipleProtocol none count pair)
      (db.step (.installMultipleProtocol none count pair)) := by
  have status : db.installStatus (.installMultipleProtocol none count pair) =
      if db.protocolHandleCount < maxHandleStruct then .success else .outOfResources := by
    rw [← sound.length_handles]
    rfl
  have counted : ¬ (count = 0 ∨ 8 < count) := by
    have bounds := batch
    rw [InstallCall.Batch] at bounds
    omega
  simp only [step, installMultipleProtocol, HandleDatabase.getHandle, if_neg counted]
  by_cases room : db.protocolHandleCount < maxHandleStruct
  · rw [if_pos room] at status
    rcases getNewHandle_created room with ⟨slot, middle, gotHandle, created⟩
    rcases sound.addProtocols_new (.installMultipleProtocol none count pair) rfl
      ((length_pairs batch).trans_le batch.2) created with ⟨next, ran, nextSound, adds⟩
    rw [InstallCall.pairs] at ran
    simp only [gotHandle, ran, Exec.ok_bind, Exec.pure_eq_ok]
    exact .added status nextSound adds
  · rw [if_neg room] at status
    simp only [getNewHandle_full room, Exec.ok_bind, Exec.pure_eq_ok]
    exact .refused sound status (by decide)

theorem Sound.installMultipleProtocol_existing (sound : db.Sound) (member : slot ∈ db.handles)
    {count : Nat}
    (batch : (InstallCall.installMultipleProtocol slot count pair).Batch) :
    db.Installs (.installMultipleProtocol slot count pair)
      (db.step (.installMultipleProtocol slot count pair)) := by
  have status : db.installStatus (.installMultipleProtocol slot count pair) =
      if maxProtocolStruct < (db.protocols slot).length + count then .outOfResources
      else if db.carriesAny slot (pair.toList.take count) then .invalidParameter
      else .success := by
    rw [installStatus]
    simp only [InstallCall.handle, length_pairs batch]
    rfl
  have counted : ¬ (count = 0 ∨ 8 < count) := by
    have bounds := batch
    rw [InstallCall.Batch] at bounds
    omega
  simp only [step, installMultipleProtocol, sound.getHandle member, if_neg counted]
  by_cases full : maxProtocolStruct < (db.protocols slot).length + count
  · rw [if_pos full] at status
    rw [sound.length_protocols slot] at full
    rw [if_pos (by simp only [maxProtocolStruct] at full ⊢; omega)]
    exact .refused sound status nofun
  · rw [if_neg full] at status
    have room := Nat.le_of_not_lt full
    rw [← length_pairs batch] at room
    rw [sound.length_protocols slot] at full
    rw [if_neg (by simp only [maxProtocolStruct] at full ⊢; omega), sound.anyInstalled member]
    cases any : db.carriesAny slot (pair.toList.take count) with
    | true =>
      rw [any, if_pos rfl] at status
      exact .refused sound status nofun
    | false =>
      rw [any, if_neg Bool.false_ne_true] at status
      rcases sound.addProtocols_existing (.installMultipleProtocol slot count pair) rfl member
        room with ⟨next, ran, nextSound, adds⟩
      rw [InstallCall.pairs] at ran
      simp only [ran, Exec.ok_bind, Exec.pure_eq_ok, Bool.false_eq_true, if_false]
      exact .added status nextSound adds

theorem batch_of_step {result : InstallResponse × HandleDatabase}
    (stepped : db.step call = .ok result) : call.Batch := by
  cases call with
  | installProtocol handle guid interface => exact trivial
  | installMultipleProtocol handle count pair =>
    by_contra invalid
    have outside : count = 0 ∨ 8 < count := by
      rw [InstallCall.Batch] at invalid
      omega
    rw [HandleDatabase.step, installMultipleProtocol, if_pos outside] at stepped
    cases stepped

/-- Every call on a handle of the database returns, keeps the tables sound and is
done completely or not at all. -/
theorem Sound.step (sound : db.Sound) (batch : call.Batch)
    (known : db.Known call.handle) : db.Installs call (db.step call) := by
  cases call with
  | installProtocol handle guid interface =>
    cases handle with
    | none => exact sound.installProtocol_new guid interface
    | some slot => exact sound.installProtocol_existing (known slot rfl) guid interface
  | installMultipleProtocol handle count pair =>
    cases handle with
    | none => exact sound.installMultipleProtocol_new batch
    | some slot => exact sound.installMultipleProtocol_existing (known slot rfl) batch

end HandleDatabase

end HypervisorFirmware.Efi
