import HypervisorFirmware.Efi.ProtocolInstallation

/-! # The variadic installation service

`install_multiple_protocol_interfaces_real`, which takes up to eight pairs of a GUID
pointer and an interface behind each other and a null pointer that ends them. What
stands behind the null pointer is whatever the caller's stack holds. -/

namespace HypervisorFirmware.Efi

/-- The GUIDs in memory. Other addresses are not those of one. -/
abbrev GuidMemory := UInt64 → Option Guid

def readGuid (memory : GuidMemory) (guid : UInt64) : Exec Guid :=
  if guid = 0 then .error .undefined
  else
    match memory guid with
    | some guid => .ok guid
    | none => .error .undefined

abbrev ArgumentPair := UInt64 × UInt64

def readPair (memory : GuidMemory) (pair : ArgumentPair) : Exec ProtocolStruct := do
  let guid ← readGuid memory pair.1
  return ⟨guid, pair.2⟩

/-- The `count` that is left when every pair with a GUID has set it. -/
def countPairs : List ArgumentPair → (index count : Nat) → Nat
  | [], _, count => count
  | (guid, _) :: rest, index, count =>
    countPairs rest (index + 1) (if guid ≠ 0 then index + 1 else count)

/-- The array `pair`. It starts with null pairs, which a null GUID leaves there. -/
def storedPairs (arguments : Vector ArgumentPair 8) : List ArgumentPair :=
  arguments.toList.map fun pair => if pair.1 ≠ 0 then pair else (0, 0)

namespace HandleDatabase

/-- Install these pairs. All GUIDs are printed before the first one is installed, so
they are read then. -/
def installPairs (memory : GuidMemory) (db : HandleDatabase) (handle : Handle)
    (pairs : List ArgumentPair) : Exec ((Status × Handle) × HandleDatabase) := do
  let protocols ← pairs.mapM (readPair memory)
  let ((status, newHandle), db) ← db.installMultipleProtocol handle pairs.length
    (Vector.ofFn fun index => protocols.getD index.val .default)
  return ((status, if status = .success then newHandle else handle), db)

def installMultipleProtocolInterfacesReal (memory : GuidMemory) (db : HandleDatabase)
    (handle : Handle) (arguments : Vector ArgumentPair 8) (guidNull : UInt64) :
    Exec ((Status × Handle) × HandleDatabase) :=
  if (arguments.toList.getD 0 (0, 0)).1 = 0 then .ok ((.invalidParameter, handle), db)
  else if guidNull ≠ 0 then .ok ((.unsupported, handle), db)
  else installPairs memory db handle
    ((storedPairs arguments).take (countPairs arguments.toList 0 0))

end HandleDatabase

def argumentGuids (arguments : Vector ArgumentPair 8) (guidNull : UInt64) : List UInt64 :=
  arguments.toList.map Prod.fst ++ [guidNull]

structure FirstNull (arguments : Vector ArgumentPair 8) (guidNull : UInt64) (number : Nat) :
    Prop where
  positive : 1 ≤ number
  given : ∀ guid ∈ (argumentGuids arguments guidNull).take number, guid ≠ 0
  null : (argumentGuids arguments guidNull)[number]? = some 0

/-! ## Counting -/

theorem countPairs_null {pairs : List ArgumentPair} (null : ∀ pair ∈ pairs, pair.1 = 0)
    (index count : Nat) : countPairs pairs index count = count := by
  induction pairs generalizing index with
  | nil => rfl
  | cons pair rest induction =>
    rw [List.forall_mem_cons] at null
    rw [countPairs, if_neg (not_not.mpr null.1)]
    exact induction null.2 (index + 1)

theorem countPairs_given {pairs : List ArgumentPair} (given : ∀ pair ∈ pairs, pair.1 ≠ 0)
    (nonempty : pairs ≠ []) (rest : List ArgumentPair) (index count : Nat) :
    countPairs (pairs ++ rest) index count =
      countPairs rest (index + pairs.length) (index + pairs.length) := by
  induction pairs generalizing index count with
  | nil => exact absurd rfl nonempty
  | cons pair more induction =>
    rw [List.forall_mem_cons] at given
    rw [List.cons_append, countPairs, if_pos given.1]
    by_cases last : more = []
    · rw [last]
      rfl
    · rw [induction given.2 last, List.length_cons, Nat.add_assoc, Nat.add_comm 1]

theorem le_countPairs (pairs : List ArgumentPair) {index count bound : Nat}
    (counted : bound ≤ count) (positioned : bound ≤ index + 1) :
    bound ≤ countPairs pairs index count := by
  induction pairs generalizing index count with
  | nil => exact counted
  | cons pair rest induction =>
    rw [countPairs]
    apply induction
    · split_ifs
      · exact positioned
      · exact counted
    · omega

variable {pair : ArgumentPair}

theorem lt_countPairs {pairs : List ArgumentPair} (member : pair ∈ pairs)
    (given : pair.1 ≠ 0) (index count : Nat) : index < countPairs pairs index count := by
  induction pairs generalizing index count with
  | nil => cases member
  | cons head rest induction =>
    rw [countPairs]
    rcases List.mem_cons.mp member with rfl | later
    · rw [if_pos given]
      exact le_countPairs rest (Nat.le_refl _) (by omega)
    · have further := induction later (index + 1) (if head.1 ≠ 0 then index + 1 else count)
      omega

/-! ## Reading the GUIDs -/

theorem readPair_fault {memory : GuidMemory} {fault : Fault}
    (faulted : readPair memory pair = .error fault) : fault = .undefined := by
  unfold readPair readGuid at faulted
  split_ifs at faulted
  · cases faulted
    rfl
  · split at faulted
    · cases faulted
    · cases faulted
      rfl

theorem readPair_null (memory : GuidMemory) (null : pair.1 = 0) :
    readPair memory pair = .error .undefined := by
  rw [readPair, readGuid, if_pos null]
  rfl

theorem mapM_readPair_null {memory : GuidMemory} {pairs : List ArgumentPair} (member : pair ∈ pairs)
    (null : pair.1 = 0) :
    pairs.mapM (readPair memory) = .error .undefined := by
  induction pairs with
  | nil => cases member
  | cons head rest induction =>
    rw [List.mapM_cons]
    cases outcome : readPair memory head with
    | error fault => rw [readPair_fault outcome, Exec.error_bind]
    | ok protocol =>
      rcases List.mem_cons.mp member with rfl | later
      · rw [readPair_null memory null] at outcome
        cases outcome
      · rw [Exec.ok_bind, induction later, Exec.error_bind]

def everywhere : GuidMemory := fun _ => some (Vector.replicate 16 0)

theorem mapM_readPair_everywhere {pairs : List ArgumentPair} (given : ∀ pair ∈ pairs, pair.1 ≠ 0) :
    ∃ protocols, pairs.mapM (readPair everywhere) = .ok protocols := by
  induction pairs with
  | nil => exact ⟨[], rfl⟩
  | cons pair rest induction =>
    rw [List.forall_mem_cons] at given
    obtain ⟨protocols, read⟩ := induction given.2
    have first : readPair everywhere pair = .ok ⟨Vector.replicate 16 0, pair.2⟩ := by
      rw [readPair, readGuid, if_neg given.1]
      rfl
    rw [List.mapM_cons, first, Exec.ok_bind, read]
    exact ⟨_, rfl⟩

namespace HandleDatabase

theorem installPairs_null {memory : GuidMemory} {db : HandleDatabase} {handle : Handle}
    {pairs : List ArgumentPair} {pair : ArgumentPair} (member : pair ∈ pairs)
    (null : pair.1 = 0) : installPairs memory db handle pairs = .error .undefined := by
  rw [installPairs, mapM_readPair_null member null]
  rfl

theorem installPairs_new {pairs : List ArgumentPair} (given : ∀ pair ∈ pairs, pair.1 ≠ 0)
    (positive : 1 ≤ pairs.length) (few : pairs.length ≤ 8) :
    ∃ handle db, installPairs everywhere .new none pairs = .ok ((.success, handle), db) := by
  obtain ⟨protocols, read⟩ := mapM_readPair_everywhere given
  have batch : (InstallCall.installMultipleProtocol none pairs.length
      (Vector.ofFn fun index => protocols.getD index.val .default)).Batch := ⟨positive, few⟩
  obtain ⟨response, next, ran, status, _⟩ := new_sound.installMultipleProtocol_new batch
  rw [step] at ran
  rw [installPairs, read, Exec.ok_bind]
  cases outcome : new.installMultipleProtocol none pairs.length
      (Vector.ofFn fun index => protocols.getD index.val .default) with
  | error fault =>
    rw [outcome] at ran
    cases ran
  | ok result =>
    obtain ⟨⟨installed, handle⟩, db⟩ := result
    rw [outcome] at ran
    cases ran
    have success : installed = .success := status
    rw [success]
    exact ⟨_, _, rfl⟩

end HandleDatabase

/-! ## What stands behind the first null GUID -/

variable {arguments : Vector ArgumentPair 8} {guidNull : UInt64} {number : Nat}

namespace FirstNull

variable (first : FirstNull arguments guidNull number)

include first

theorem number_le : number ≤ 8 := by
  obtain ⟨bound, _⟩ := List.getElem?_eq_some_iff.mp first.null
  simpa [argumentGuids, Nat.lt_succ_iff] using bound

theorem length_take : (arguments.toList.take number).length = number := by
  rw [List.length_take, Vector.length_toList, Nat.min_eq_left first.number_le]

theorem pairs_given : ∀ pair ∈ arguments.toList.take number, pair.1 ≠ 0 := by
  intro pair member
  apply first.given
  rw [argumentGuids, List.take_append_of_le_length (by simpa using first.number_le),
    ← List.map_take]
  exact List.mem_map_of_mem member

theorem rest_null_iff :
    (∀ guid ∈ (argumentGuids arguments guidNull).drop (number + 1), guid = 0) ↔
      (∀ pair ∈ arguments.toList.drop number, pair.1 = 0) ∧ guidNull = 0 := by
  obtain ⟨bound, null⟩ := List.getElem?_eq_some_iff.mp first.null
  have whole := List.drop_eq_getElem_cons bound
  have split : (argumentGuids arguments guidNull).drop number =
      (arguments.toList.drop number).map Prod.fst ++ [guidNull] := by
    rw [argumentGuids, List.drop_append_of_le_length (by simpa using first.number_le),
      List.map_drop]
  rw [null, split] at whole
  have same : (∀ guid ∈ (arguments.toList.drop number).map Prod.fst ++ [guidNull], guid = 0) ↔
      ∀ guid ∈ (argumentGuids arguments guidNull).drop (number + 1), guid = 0 := by
    rw [whole, List.forall_mem_cons]
    exact and_iff_right rfl
  rw [← same, List.forall_mem_append, List.forall_mem_map, List.forall_mem_singleton]

theorem count_eq :
    countPairs arguments.toList 0 0 = countPairs (arguments.toList.drop number) number number := by
  have nonempty : arguments.toList.take number ≠ [] := by
    rw [← List.length_pos_iff, first.length_take]
    exact first.positive
  have counted := countPairs_given first.pairs_given nonempty (arguments.toList.drop number) 0 0
  rw [List.take_append_drop, first.length_take, Nat.zero_add] at counted
  exact counted

theorem stored_take : (storedPairs arguments).take number = arguments.toList.take number := by
  rw [storedPairs, ← List.map_take]
  conv_rhs => rw [← List.map_id (arguments.toList.take number)]
  apply List.map_congr_left
  intro pair member
  exact if_pos (first.pairs_given pair member)

theorem stored_null (inside : number < 8) : (storedPairs arguments)[number]? = some (0, 0) := by
  have null := first.null
  rw [argumentGuids, List.getElem?_append_left (by simpa using inside), List.getElem?_map,
    Option.map_eq_some_iff] at null
  obtain ⟨pair, found, zero⟩ := null
  rw [storedPairs, List.getElem?_map, found, Option.map_some, if_neg (not_not.mpr zero)]

theorem first_given : (arguments.toList.getD 0 (0, 0)).1 ≠ 0 := by
  have inside : 0 < arguments.toList.length := by simp
  apply first.pairs_given
  rw [List.getD_eq_getElem?_getD, List.getElem?_eq_getElem inside, Option.getD_some]
  apply List.mem_of_getElem?
  rw [List.getElem?_take_of_lt first.positive]
  exact List.getElem?_eq_getElem inside

end FirstNull

namespace HandleDatabase

/-- The pairs before the first null GUID are what the call installs, whatever the
database, exactly when all GUIDs behind it are null as well. -/
theorem install_ends_at_first_null_iff (first : FirstNull arguments guidNull number) :
    (∀ memory db handle,
      installMultipleProtocolInterfacesReal memory db handle arguments guidNull =
        installPairs memory db handle (arguments.toList.take number)) ↔
      ∀ guid ∈ (argumentGuids arguments guidNull).drop (number + 1), guid = 0 := by
  rw [first.rest_null_iff]
  constructor
  · intro ends
    obtain ⟨handle, db, installed⟩ := installPairs_new first.pairs_given
      (by rw [first.length_take]; exact first.positive)
      (by rw [first.length_take]; exact first.number_le)
    have same := (ends everywhere .new none).trans installed
    rw [installMultipleProtocolInterfacesReal, if_neg first.first_given] at same
    by_cases last : guidNull = 0
    · refine ⟨fun pair member => ?_, last⟩
      by_contra given
      rw [if_neg (not_not.mpr last), first.count_eq] at same
      have inside : number < 8 := by
        have nonempty := List.length_pos_of_mem member
        rw [List.length_drop, Vector.length_toList] at nonempty
        omega
      have counted := lt_countPairs member given number number
      -- The null pair is one of those that are counted.
      have stored : (0, 0) ∈ (storedPairs arguments).take
          (countPairs (arguments.toList.drop number) number number) := by
        apply List.mem_of_getElem?
        rw [List.getElem?_take_of_lt counted]
        exact first.stored_null inside
      rw [installPairs_null stored rfl] at same
      cases same
    · rw [if_pos last] at same
      cases same
  · rintro ⟨null, last⟩ memory db handle
    rw [installMultipleProtocolInterfacesReal, if_neg first.first_given,
      if_neg (not_not.mpr last), first.count_eq, countPairs_null null, first.stored_take]

def twoPairs (leftover : ArgumentPair) : Vector ArgumentPair 8 :=
  #v[(16, 1), (32, 2), (0, 7), leftover, (0, 9), (0, 0), (0, 0), (0, 5)]

theorem twoPairs_firstNull (leftover : ArgumentPair) (guidNull : UInt64) :
    FirstNull (twoPairs leftover) guidNull 2 where
  positive := by decide
  given guid member := by
    have listed : guid = 16 ∨ guid = 32 := by
      simpa [argumentGuids, twoPairs] using member
    rcases listed with rfl | rfl
    · decide
    · decide
  null := rfl

theorem twoPairs_alone_installed :
    FirstNull (twoPairs (0, 3)) 0 2 ∧ ∀ memory db handle,
      installMultipleProtocolInterfacesReal memory db handle (twoPairs (0, 3)) 0 =
        installPairs memory db handle [(16, 1), (32, 2)] :=
  ⟨twoPairs_firstNull _ _, (install_ends_at_first_null_iff (twoPairs_firstNull _ _)).mpr (by
    intro guid member
    simpa [argumentGuids, twoPairs] using member)⟩

/-- Two GUIDs can be installed, but with a third one left behind the null pointer the
null pointer is read, and with something left in the last place nothing is installed. -/
theorem twoPairs_with_leftovers :
    FirstNull (twoPairs (48, 3)) 0 2 ∧ FirstNull (twoPairs (0, 3)) 8 2 ∧
      (∃ handle db, installPairs everywhere .new none [(16, 1), (32, 2)] =
        .ok ((.success, handle), db)) ∧
      installMultipleProtocolInterfacesReal everywhere .new none (twoPairs (48, 3)) 0 =
        .error .undefined ∧
      installMultipleProtocolInterfacesReal everywhere .new none (twoPairs (0, 3)) 8 =
        .ok ((.unsupported, none), .new) := by
  refine ⟨twoPairs_firstNull _ _, twoPairs_firstNull _ _, ?_, ?_, rfl⟩
  · apply installPairs_new
    · intro pair member
      have listed : pair = (16, 1) ∨ pair = (32, 2) := by simpa using member
      rcases listed with rfl | rfl
      · decide
      · decide
    · decide
    · decide
  · rfl

end HandleDatabase

end HypervisorFirmware.Efi
