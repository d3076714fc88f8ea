import HypervisorFirmware.Efi.HandleDatabase

/-! # What the handle database holds

The tables as lists: the handles in the order of their creation, each with its
protocols in the order of their installation. Every function of the database is
told in these terms. -/

namespace HypervisorFirmware.Efi

def ProtocolHandle.protocols (handle : ProtocolHandle) : List ProtocolStruct :=
  (Table.slots maxProtocolStruct handle.protocolCount).map handle.protocolStruct

def interfaceOf (guid : Guid) (protocols : List ProtocolStruct) : Option UInt64 :=
  (protocols.find? fun protocol => protocol.guid = guid).map ProtocolStruct.interface

def interfaceResult : Option UInt64 → Status × UInt64
  | none => (.notFound, 0)
  | some interface => (.success, interface)

namespace HandleDatabase

def protocols (db : HandleDatabase) (slot : HandleSlot) : List ProtocolStruct :=
  (db.protocolHandle slot).protocols

def handles (db : HandleDatabase) : List HandleSlot :=
  Table.slots maxHandleStruct db.protocolHandleCount

def carrying (db : HandleDatabase) (guid : Guid) : List HandleSlot :=
  db.handles.filter fun slot => (interfaceOf guid (db.protocols slot)).isSome

/-- The entries in use are within the tables, and the handles among them are
signed. -/
structure Sound (db : HandleDatabase) : Prop where
  fits : db.protocolHandleCount ≤ maxHandleStruct
  signed : ∀ slot ∈ db.handles, (db.protocolHandle slot).signature = handleSignature
  protocolsFit : ∀ slot, (db.protocolHandle slot).protocolCount ≤ maxProtocolStruct

theorem new_sound : new.Sound where
  fits := Nat.zero_le _
  signed := by simp [handles, new]
  protocolsFit _ := Nat.zero_le _

theorem mem_handles {db : HandleDatabase} {slot : HandleSlot} :
    slot ∈ db.handles ↔ slot.val < db.protocolHandleCount := Table.mem_slots

variable {db : HandleDatabase} {slot : HandleSlot} {guid : Guid}

theorem Sound.length_protocols (sound : db.Sound) (slot : HandleSlot) :
    (db.protocols slot).length = (db.protocolHandle slot).protocolCount := by
  rw [protocols, ProtocolHandle.protocols, List.length_map,
    Table.length_slots (sound.protocolsFit slot)]

/-! ## Queries -/

section

variable (sound : db.Sound) (member : slot ∈ db.handles) (guid : Guid)

include sound member

theorem Sound.getProtocol :
    db.getProtocol slot guid = .ok
      ((Table.slots maxProtocolStruct (db.protocolHandle slot).protocolCount).find?
        fun index => ((db.protocolHandle slot).protocolStruct index).guid = guid) := by
  rw [HandleDatabase.getProtocol, if_neg (not_not_intro (sound.signed slot member)),
    Table.scan_findSome
      (Option.guard fun index => ((db.protocolHandle slot).protocolStruct index).guid = guid)
      (sound.protocolsFit slot)]
  · rw [List.findSome?_guard]
  · intro index _
    by_cases same : guid = ((db.protocolHandle slot).protocolStruct index).guid
    · simp [same]
    · simp [Option.guard, same, Ne.symm same]

theorem Sound.getProtocol_cases :
    (db.getProtocol slot guid = .ok none ∧ interfaceOf guid (db.protocols slot) = none) ∨
      ∃ index, db.getProtocol slot guid = .ok (some index) ∧
        interfaceOf guid (db.protocols slot) =
          some ((db.protocolHandle slot).protocolStruct index).interface := by
  have looked := sound.getProtocol member guid
  have listed : interfaceOf guid (db.protocols slot) =
      ((Table.slots maxProtocolStruct (db.protocolHandle slot).protocolCount).find?
        fun index => ((db.protocolHandle slot).protocolStruct index).guid = guid).map
        fun index => ((db.protocolHandle slot).protocolStruct index).interface := by
    rw [interfaceOf, protocols, ProtocolHandle.protocols, List.find?_map, Option.map_map]
    rfl
  cases found : (Table.slots maxProtocolStruct (db.protocolHandle slot).protocolCount).find?
      fun index => ((db.protocolHandle slot).protocolStruct index).guid = guid with
  | none =>
    left
    rw [looked, listed, found]
    exact ⟨rfl, rfl⟩
  | some index =>
    right
    refine ⟨index, ?_⟩
    rw [looked, listed, found]
    exact ⟨rfl, rfl⟩

theorem Sound.handleProtocol :
    db.handleProtocol slot guid = .ok (interfaceResult (interfaceOf guid (db.protocols slot))) := by
  rw [HandleDatabase.handleProtocol, if_neg (not_not_intro (sound.signed slot member))]
  rcases sound.getProtocol_cases member guid with ⟨looked, listed⟩ | ⟨index, looked, listed⟩
  · rw [looked, listed]
    rfl
  · rw [looked, listed]
    rfl

end

theorem Sound.locateProtocol (sound : db.Sound) (guid : Guid) :
    db.locateProtocol guid = .ok (interfaceResult
      (db.handles.findSome? fun slot => interfaceOf guid (db.protocols slot))) := by
  rw [HandleDatabase.locateProtocol,
    Table.scan_findSome (fun slot => interfaceOf guid (db.protocols slot)) sound.fits]
  · rw [Exec.ok_bind, handles]
    cases (Table.slots maxHandleStruct db.protocolHandleCount).findSome? _ with
    | none => rfl
    | some interface => rfl
  · intro slot inUse
    rcases sound.getProtocol_cases (mem_handles.mpr inUse) guid with
      ⟨looked, listed⟩ | ⟨index, looked, listed⟩
    · rw [looked, listed]
      rfl
    · rw [looked, listed]
      rfl

def carryingFirst (db : HandleDatabase) (guid : Guid) (count : Nat) : List HandleSlot :=
  (Table.slots maxHandleStruct count).filter fun slot =>
    (interfaceOf guid (db.protocols slot)).isSome

theorem carryingFirst_succ (db : HandleDatabase) (guid : Guid) (slot : HandleSlot) :
    db.carryingFirst guid (slot.val + 1) =
      if (interfaceOf guid (db.protocols slot)).isSome then
        db.carryingFirst guid slot.val ++ [slot]
      else db.carryingFirst guid slot.val := by
  rw [carryingFirst, Table.slots_succ slot.isLt, List.filter_append]
  split_ifs with carries
  · simp [carries, carryingFirst]
  · simp [carries, carryingFirst]

theorem Sound.locateHandleCount (sound : db.Sound) (guid : Guid) :
    db.locateHandleCount guid = .ok
      (if (db.carrying guid).length = 0 then .error .notFound
        else .ok (db.carrying guid).length) := by
  apply Table.scan_states (fun index => (db.carryingFirst guid index).length) sound.fits
  intro visited inUse
  have next := db.carryingFirst_succ guid visited
  rcases sound.getProtocol_cases (mem_handles.mpr inUse) guid with
    ⟨looked, listed⟩ | ⟨index, looked, listed⟩
  · rw [looked, next, listed]
    rfl
  · rw [looked, next, listed]
    simp

def overwrite (buffer : HandleBuffer) (written : List HandleSlot) : HandleBuffer := fun index =>
  match written[index]? with
  | some slot => some slot
  | none => buffer index

theorem overwrite_concat (buffer : HandleBuffer) (written : List HandleSlot) (slot : HandleSlot) :
    Function.update (overwrite buffer written) written.length (some slot) =
      overwrite buffer (written ++ [slot]) := by
  funext index
  by_cases last : index = written.length
  · subst last
    simp [overwrite]
  · rw [Function.update_of_ne last]
    rcases Nat.lt_or_gt_of_ne last with inside | outside
    · simp [overwrite, List.getElem?_append_left inside]
    · rw [overwrite, overwrite, List.getElem?_eq_none (by omega),
        List.getElem?_eq_none (by simp; omega)]

theorem Sound.locateHandleCopy (sound : db.Sound) (guid : Guid) (buffer : HandleBuffer)
    {bufferSize : Nat} (room : (db.carrying guid).length * handleSize ≤ bufferSize) :
    db.locateHandleCopy guid buffer bufferSize = .ok (overwrite buffer (db.carrying guid)) := by
  apply Table.scan_states (fun index =>
    ((db.carryingFirst guid index).length, overwrite buffer (db.carryingFirst guid index)))
    sound.fits
  intro visited inUse
  have next := db.carryingFirst_succ guid visited
  rcases sound.getProtocol_cases (mem_handles.mpr inUse) guid with
    ⟨looked, listed⟩ | ⟨index, looked, listed⟩
  · rw [looked, next, listed]
    rfl
  · rw [listed, if_pos Option.isSome_some] at next
    -- The copy has room: the handles so far and this one are among those counted.
    have among : (db.carryingFirst guid (visited.val + 1)).Sublist (db.carrying guid) :=
      (List.take_sublist_take_left (Nat.succ_le_of_lt inUse)).filter _
    have counted : (db.carryingFirst guid visited.val).length + 1 ≤ (db.carrying guid).length := by
      have shorter := among.length_le
      rw [next, List.length_append] at shorter
      exact shorter
    have bounded : (db.carrying guid).length ≤ maxHandleStruct := by
      have all : (db.carrying guid).length ≤ db.handles.length := List.length_filter_le _ _
      rw [handles, Table.length_slots sound.fits] at all
      exact Nat.le_trans all sound.fits
    have sized := Nat.le_trans (Nat.mul_le_mul_right handleSize counted) room
    rw [looked, next, ← overwrite_concat]
    simp only [Exec.ok_bind, List.length_append, List.length_singleton]
    rw [if_pos ⟨sized, Nat.lt_of_lt_of_le counted bounded⟩]
    rfl

theorem Sound.locateHandle (sound : db.Sound) (guid : Guid) (bufferSize : Nat)
    (buffer : HandleBuffer) :
    db.locateHandle guid bufferSize buffer = .ok
      (if (db.carrying guid).length = 0 then ((.notFound, 0), buffer)
        else if bufferSize < (db.carrying guid).length * handleSize then
          ((.bufferTooSmall, (db.carrying guid).length * handleSize), buffer)
        else
          ((.success, (db.carrying guid).length * handleSize),
            overwrite buffer (db.carrying guid))) := by
  rw [HandleDatabase.locateHandle, sound.locateHandleCount, Exec.ok_bind]
  by_cases none : (db.carrying guid).length = 0
  · rw [if_pos none, if_pos none]
    rfl
  · rw [if_neg none, if_neg none]
    simp only
    split_ifs
    · rfl
    · rw [sound.locateHandleCopy guid buffer (Nat.le_refl _)]
      rfl

theorem Sound.locateHandleBuffer (sound : db.Sound) (guid : Guid) (buffer : HandleBuffer) :
    db.locateHandleBuffer guid (.ok buffer) = .ok
      (if (db.carrying guid).length = 0 then .error .notFound
        else .ok ((db.carrying guid).length, overwrite buffer (db.carrying guid))) := by
  rw [HandleDatabase.locateHandleBuffer, sound.locateHandleCount, Exec.ok_bind]
  by_cases none : (db.carrying guid).length = 0
  · rw [if_pos none, if_pos none]
    rfl
  · rw [if_neg none, if_neg none]
    simp only
    rw [sound.locateHandleCopy guid buffer (Nat.le_refl _)]
    rfl

end HandleDatabase

end HypervisorFirmware.Efi
