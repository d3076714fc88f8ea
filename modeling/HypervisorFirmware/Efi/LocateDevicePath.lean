import HypervisorFirmware.Efi.DevicePath
import HypervisorFirmware.Efi.HandleContents
import HypervisorFirmware.Foundation.Selection

/-! # Locating the handle of a device path

`locate_device_path` of `efi/mod.rs` looks among the handles that carry a protocol
for the one whose device path is the longest beginning of a given path. -/

namespace HypervisorFirmware.Efi

open HandleDatabase (HandleBuffer)

/-- The GUID of the device path protocol, 09576e91-6d3f-11d2-8e39-00a0c969723b. -/
def devicePathGuid : Guid :=
  #v[0x91, 0x6e, 0x57, 0x09, 0x3f, 0x6d, 0xd2, 0x11, 0x8e, 0x39, 0x00, 0xa0, 0xc9, 0x69, 0x72,
    0x3b]

structure LocatePointers where
  devicePath : Option UInt64
  device : Option Handle
  deriving DecidableEq

structure BestMatch where
  bestMatch : Int32
  bestDevice : Handle
  deriving DecidableEq

def sourceIteration (memory : ByteMemory) (node : UInt64) : Exec (UInt64 ⊕ UInt64) :=
  if isDevicePathEnd memory node then .ok (.inr node)
  else if isDevicePathEndInstance memory node then .ok (.inr node)
  else .ok (.inl (getNextDevicePathNode memory node))

def matchIteration (fuel : Nat) (memory : ByteMemory) (db : HandleDatabase)
    (sourcePath sourceSize : UInt64) (handle : Handle) (best : BestMatch) : Exec BestMatch :=
  match handle with
  | none => .error .undefined
  | some slot => do
      match ← db.handleProtocol slot devicePathGuid with
      | (.success, interface) =>
        let size := (← getDevicePathSize memory fuel interface) - 4
        if size ≤ sourceSize ∧ compareDevicePath memory interface sourcePath size.toNat then
          if Int32.ofNat size.toNat > best.bestMatch then
            return ⟨Int32.ofNat size.toNat, handle⟩
          else return best
        else return best
      | _ => return best

def locateDevicePath (fuel : Nat) (memory : ByteMemory) (db : HandleDatabase)
    (protocol : Guid) (pool : Except Status HandleBuffer) (pointers : LocatePointers) :
    Exec (Status × LocatePointers) :=
  match pointers.devicePath with
  -- The pointer is read before it is compared with null.
  | none => .error .undefined
  | some sourcePath =>
    if sourcePath = 0 then .ok (.invalidParameter, pointers)
    else do
      let firstEnd ← Loop.run (sourceIteration memory) fuel sourcePath
      let sourceSize := firstEnd - sourcePath
      match ← db.locateHandleBuffer protocol pool with
      | .error _ => return (.notFound, pointers)
      | .ok (handleCount, handles) =>
        if handleCount = 0 then return (.notFound, pointers)
        else
          -- The buffer is read as an array of 128 handles.
          let best ← Table.scan
            (fun (index : Fin 128) best => do
              let best ← matchIteration fuel memory db sourcePath sourceSize
                (handles index.val) best
              return .inl best)
            id handleCount ⟨-1, none⟩
          if best.bestMatch = -1 then return (.notFound, pointers)
          else
            match pointers.device with
            | none => return (.invalidParameter, pointers)
            | some _ =>
              return (.success,
                { devicePath := some (sourcePath + UInt64.ofInt best.bestMatch.toInt)
                  device := some best.bestDevice })

/-! ## Matches -/

def pathLimit : Nat := 2 ^ 31

/-- The device paths that are installed, and the source path, are well formed. -/
structure PathsWellFormed (memory : ByteMemory) (db : HandleDatabase) (sourcePath : UInt64)
    (sourceNodes : List Node) : Prop where
  installed : ∀ slot ∈ db.handles, ∀ protocol ∈ db.protocols slot,
    protocol.guid = devicePathGuid →
      ∃ nodes, PathAt memory protocol.interface nodes ∧ nodesSize nodes + 4 < pathLimit
  source : PathAt memory sourcePath sourceNodes
  sourceSize : nodesSize sourceNodes + 4 < pathLimit

def Matches (memory : ByteMemory) (db : HandleDatabase) (sourceNodes : List Node)
    (slot : HandleSlot) (nodes : List Node) : Prop :=
  ∃ address, interfaceOf devicePathGuid (db.protocols slot) = some address ∧
    PathAt memory address nodes ∧ nodes <+: firstInstance sourceNodes

/-- The first handle with the longest match among those that carry a protocol. -/
def IsLongestMatch (memory : ByteMemory) (db : HandleDatabase) (protocol : Guid)
    (sourceNodes : List Node) (slot : HandleSlot) (nodes : List Node) : Prop :=
  ∃ before after, db.carrying protocol = before ++ slot :: after ∧
    Matches memory db sourceNodes slot nodes ∧
    (∀ other ∈ before, ∀ shorter, Matches memory db sourceNodes other shorter →
      shorter <+: nodes ∧ shorter ≠ nodes) ∧
    (∀ other ∈ after, ∀ shorter, Matches memory db sourceNodes other shorter →
      shorter <+: nodes)

def matchSize (fuel : Nat) (memory : ByteMemory) (db : HandleDatabase)
    (sourcePath : UInt64) (sourceNodes : List Node) (slot : HandleSlot) : Option Nat :=
  match interfaceOf devicePathGuid (db.protocols slot) with
  | none => none
  | some interface =>
    match getDevicePathSize memory fuel interface with
    | .error _ => none
    | .ok total =>
      if total - 4 ≤ UInt64.ofNat (nodesSize (firstInstance sourceNodes)) ∧
          compareDevicePath memory interface sourcePath (total - 4).toNat then
        some (total - 4).toNat
      else none

def BestMatch.of : Option (Nat × HandleSlot) → BestMatch
  | none => ⟨-1, none⟩
  | some (size, slot) => ⟨Int32.ofNat size, some slot⟩

section

variable {fuel : Nat} {memory : ByteMemory} {db : HandleDatabase} {sourcePath : UInt64}
  {sourceNodes nodes : List Node} {slot : HandleSlot}

theorem PathAt.firstEnd (path : PathAt memory sourcePath sourceNodes)
    (enough : sourceNodes.length < fuel) :
    Loop.run (sourceIteration memory) fuel sourcePath =
      .ok (sourcePath + UInt64.ofNat (nodesSize (firstInstance sourceNodes))) := by
  induction path generalizing fuel with
  | finish ends _ =>
    obtain ⟨fuel, rfl⟩ := Nat.exists_eq_succ_of_ne_zero (Nat.ne_zero_of_lt enough)
    simp [Loop.run, sourceIteration, ends, firstInstance]
  | @node address rest ends header _ induction =>
    obtain ⟨fuel, rfl⟩ := Nat.exists_eq_succ_of_ne_zero (Nat.ne_zero_of_lt enough)
    rw [firstInstance_cons, isEndInstance_node header]
    simp only [Loop.run, sourceIteration, if_neg ends]
    split_ifs with isInstance
    · simp
    · simp only [induction (Nat.lt_of_succ_lt_succ enough), nodesSize_cons,
        ByteMemory.length_bytes, UInt64.ofNat_add, UInt64.ofNat_toNat, ← UInt64.add_assoc]
      rfl

variable {address : UInt64} {best : Option (Nat × HandleSlot)}

theorem PathAt.length_lt (path : PathAt memory address nodes)
    (small : nodesSize nodes < pathLimit) (enough : 2 ^ 29 ≤ fuel) : nodes.length < fuel := by
  have counted := path.length_le
  rw [pathLimit] at small
  omega

theorem toNat_ofNat_small {size : Nat} (small : size < pathLimit) :
    (UInt64.ofNat size).toNat = size := by
  rw [pathLimit] at small
  rw [UInt64.toNat_ofNat', Nat.mod_eq_of_lt (by omega)]

/-! ## The best match so far -/

theorem toInt_ofNat_small {size : Nat} (small : size < pathLimit) :
    (Int32.ofNat size).toInt = size := Int32.toInt_ofNat_of_lt small

theorem BestMatch.of_eq_none (small : ∀ kept ∈ best, kept.1 < pathLimit) :
    (BestMatch.of best).bestMatch = -1 ↔ best = none := by
  cases best with
  | none => simp [BestMatch.of]
  | some kept =>
    simp only [BestMatch.of, reduceCtorEq, iff_false]
    intro minusOne
    have negative := congrArg Int32.toInt minusOne
    rw [toInt_ofNat_small (small kept rfl)] at negative
    change (kept.1 : Int) = -1 at negative
    omega

theorem BestMatch.lt_iff
    (small : ∀ kept ∈ best, kept.1 < pathLimit) {size : Nat} (sizeSmall : size < pathLimit) :
    Int32.ofNat size > (BestMatch.of best).bestMatch ↔ ∀ kept ∈ best, kept.1 < size := by
  rw [gt_iff_lt, Int32.lt_iff_toInt_lt, toInt_ofNat_small sizeSmall]
  cases best with
  | none =>
    have minusOne : (BestMatch.of none).bestMatch.toInt = -1 := rfl
    simp only [minusOne, Option.not_mem_none, false_imp_iff, implies_true, iff_true]
    omega
  | some kept =>
    rw [BestMatch.of, toInt_ofNat_small (small kept rfl)]
    simp

theorem mem_handles_of_carrying {protocol : Guid} (member : slot ∈ db.carrying protocol) :
    slot ∈ db.handles := (List.mem_filter.mp member).1

def located (sourcePath : UInt64) (device : Handle) :
    Option (Nat × HandleSlot) → Status × LocatePointers
  | none => (.notFound, ⟨some sourcePath, some device⟩)
  | some (size, slot) =>
    (.success, ⟨some (sourcePath + UInt64.ofNat size), some (some slot)⟩)

/-! ## The sizes of the matches -/

section

variable (paths : PathsWellFormed memory db sourcePath sourceNodes)

include paths

theorem PathsWellFormed.firstInstance_small :
    nodesSize (firstInstance sourceNodes) < pathLimit := by
  have shorter := nodesSize_le (firstInstance_begins sourceNodes)
  have bound := paths.sourceSize
  omega

theorem PathsWellFormed.match_small (begins : nodes <+: firstInstance sourceNodes) :
    nodesSize nodes < pathLimit :=
  Nat.lt_of_le_of_lt (nodesSize_le begins) paths.firstInstance_small

theorem PathsWellFormed.of_interface (member : slot ∈ db.handles)
    (carried : interfaceOf devicePathGuid (db.protocols slot) = some address) :
    ∃ nodes, PathAt memory address nodes ∧ nodesSize nodes < pathLimit := by
  rw [interfaceOf, Option.map_eq_some_iff] at carried
  rcases carried with ⟨protocol, found, rfl⟩
  have guid : protocol.guid = devicePathGuid := by
    simpa using List.find?_some found
  rcases paths.installed slot member protocol (List.mem_of_find?_eq_some found) guid with
    ⟨nodes, path, small⟩
  exact ⟨nodes, path, by omega⟩

variable (enough : 2 ^ 29 ≤ fuel)

include enough

theorem PathsWellFormed.matchSize_eq
    (carried : interfaceOf devicePathGuid (db.protocols slot) = some address)
    (path : PathAt memory address nodes) (small : nodesSize nodes < pathLimit) :
    matchSize fuel memory db sourcePath sourceNodes slot =
      if nodes <+: firstInstance sourceNodes then some (nodesSize nodes) else none := by
  simp only [matchSize, carried, path.size (path.length_lt small enough),
    UInt64.add_sub_cancel, UInt64.le_iff_toNat_le, toNat_ofNat_small small,
    toNat_ofNat_small paths.firstInstance_small, path.begins_iff paths.source]

theorem PathsWellFormed.matchSize_eq_some (member : slot ∈ db.handles) (size : Nat) :
    matchSize fuel memory db sourcePath sourceNodes slot = some size ↔
      ∃ nodes, Matches memory db sourceNodes slot nodes ∧ nodesSize nodes = size := by
  constructor
  · intro scored
    cases carried : interfaceOf devicePathGuid (db.protocols slot) with
    | none => simp [matchSize, carried] at scored
    | some address =>
      rcases paths.of_interface member carried with ⟨nodes, path, small⟩
      rw [paths.matchSize_eq enough carried path small] at scored
      split_ifs at scored with begins
      exact ⟨nodes, ⟨address, carried, path, begins⟩, Option.some.inj scored⟩
  · rintro ⟨nodes, ⟨address, carried, path, begins⟩, rfl⟩
    rw [paths.matchSize_eq enough carried path (paths.match_small begins), if_pos begins]

theorem PathsWellFormed.matchSize_lt (member : slot ∈ db.handles)
    {size : Nat} (scored : matchSize fuel memory db sourcePath sourceNodes slot = some size) :
    size < pathLimit := by
  rcases (paths.matchSize_eq_some enough member size).mp scored with
    ⟨nodes, ⟨_, _, _, begins⟩, rfl⟩
  exact paths.match_small begins

theorem PathsWellFormed.firstBest_small {slots : List HandleSlot}
    (inUse : ∀ slot ∈ slots, slot ∈ db.handles) :
    ∀ kept ∈ Selection.firstBest (matchSize fuel memory db sourcePath sourceNodes) slots,
      kept.1 < pathLimit := by
  intro kept best
  have isBest :=
    Selection.isFirstBest_firstBest (matchSize fuel memory db sourcePath sourceNodes) slots
  rw [Option.mem_def.mp best] at isBest
  rcases isBest with ⟨before, after, split, scored, _⟩
  exact paths.matchSize_lt enough (inUse kept.2 (by simp [split])) scored

theorem isLongestMatch_of_isFirstBest {protocol : Guid} {size : Nat}
    (isBest : Selection.IsFirstBest (matchSize fuel memory db sourcePath sourceNodes)
      (db.carrying protocol) (some (size, slot))) :
    ∃ nodes, IsLongestMatch memory db protocol sourceNodes slot nodes ∧ nodesSize nodes = size := by
  rcases isBest with ⟨before, after, split, scored, lower, notHigher⟩
  have inUse : ∀ other ∈ before ++ slot :: after, other ∈ db.handles := by
    rw [← split]
    exact fun other => mem_handles_of_carrying
  rcases (paths.matchSize_eq_some enough (inUse slot (by simp)) size).mp scored with
    ⟨nodes, found, rfl⟩
  have begins := found.choose_spec.2.2
  have sourceWords : ∀ node ∈ firstInstance sourceNodes, Node.WellFormed node :=
    fun node member => paths.source.wellFormed node ((firstInstance_begins _).subset member)
  refine ⟨nodes, ⟨before, after, split, found, ?_, ?_⟩, rfl⟩
  · intro other member shorter isMatch
    have size := lower other member _
      ((paths.matchSize_eq_some enough (inUse other (by simp [member])) _).mpr
        ⟨shorter, isMatch, rfl⟩)
    refine ⟨Node.prefixFree.words_of_length_le sourceWords isMatch.choose_spec.2.2 begins
      (Nat.le_of_lt size), ?_⟩
    rintro rfl
    exact Nat.lt_irrefl _ size
  · intro other member shorter isMatch
    have size := notHigher other member _
      ((paths.matchSize_eq_some enough (inUse other (by simp [member])) _).mpr
        ⟨shorter, isMatch, rfl⟩)
    exact Node.prefixFree.words_of_length_le sourceWords isMatch.choose_spec.2.2 begins size

/-! ## The loop over the handles -/

variable (sound : db.Sound)

include sound

theorem matchIteration_eq (member : slot ∈ db.handles) (small : ∀ kept ∈ best, kept.1 < pathLimit) :
    matchIteration fuel memory db sourcePath
        (UInt64.ofNat (nodesSize (firstInstance sourceNodes))) (some slot) (.of best) =
      .ok (.of (Selection.better (matchSize fuel memory db sourcePath sourceNodes) best slot)) := by
  rw [matchIteration, sound.handleProtocol member]
  cases carried : interfaceOf devicePathGuid (db.protocols slot) with
  | none => simp [interfaceResult, Selection.better, matchSize, carried]
  | some address =>
    rcases paths.of_interface member carried with ⟨nodes, path, nodesSmall⟩
    have sized := path.size (path.length_lt nodesSmall enough)
    have scored := paths.matchSize_eq enough carried path nodesSmall
    have tested : (UInt64.ofNat (nodesSize nodes) ≤
          UInt64.ofNat (nodesSize (firstInstance sourceNodes)) ∧
        compareDevicePath memory address sourcePath (nodesSize nodes)) ↔
        nodes <+: firstInstance sourceNodes := by
      rw [← path.begins_iff paths.source, UInt64.le_iff_toNat_le, toNat_ofNat_small nodesSmall,
        toNat_ofNat_small paths.firstInstance_small]
    simp only [interfaceResult, Exec.ok_bind, sized, UInt64.add_sub_cancel,
      toNat_ofNat_small nodesSmall, tested]
    by_cases begins : nodes <+: firstInstance sourceNodes
    · rw [if_pos begins] at scored ⊢
      rw [Selection.better_of_some best scored]
      by_cases longer : ∀ kept ∈ best, kept.1 < nodesSize nodes
      · rw [if_pos ((BestMatch.lt_iff small nodesSmall).mpr longer), if_pos longer]
        rfl
      · rw [if_neg (mt (BestMatch.lt_iff small nodesSmall).mp longer), if_neg longer]
        rfl
    · rw [if_neg begins] at scored ⊢
      rw [Selection.better_of_none best scored]
      rfl

theorem scan_matches (protocol : Guid) (buffer : HandleBuffer) :
    Table.scan
        (fun (index : Fin 128) best => do
          let best ← matchIteration fuel memory db sourcePath
            (UInt64.ofNat (nodesSize (firstInstance sourceNodes)))
            (HandleDatabase.overwrite buffer (db.carrying protocol) index.val) best
          return .inl best)
        id (db.carrying protocol).length ⟨-1, none⟩ =
      .ok (.of (Selection.firstBest (matchSize fuel memory db sourcePath sourceNodes)
        (db.carrying protocol))) := by
  have fits : (db.carrying protocol).length ≤ 128 := by
    have all : (db.carrying protocol).length ≤ db.handles.length := List.length_filter_le _ _
    have limit := sound.fits
    rw [HandleDatabase.handles, Table.length_slots sound.fits] at all
    simp only [maxHandleStruct] at limit
    omega
  refine (Table.scan_states (fun count => BestMatch.of (Selection.firstBest
    (matchSize fuel memory db sourcePath sourceNodes)
    ((db.carrying protocol).take count))) fits ?_).trans ?_
  · intro index inside
    have inUse : ∀ slot ∈ db.carrying protocol, slot ∈ db.handles :=
      fun slot => mem_handles_of_carrying
    have visited : HandleDatabase.overwrite buffer (db.carrying protocol) index.val =
        some (db.carrying protocol)[index.val] := by
      rw [HandleDatabase.overwrite, List.getElem?_eq_getElem inside]
    rw [visited, matchIteration_eq paths enough sound (inUse _ (List.getElem_mem inside))
      (paths.firstBest_small enough fun slot member => inUse slot (List.mem_of_mem_take member)),
      ← List.take_concat_get' _ _ inside, Selection.firstBest_concat]
    rfl
  · rw [List.take_length]
    rfl

theorem locateDevicePath_eq (protocol : Guid) (buffer : HandleBuffer) (device : Handle)
    (notNull : sourcePath ≠ 0) :
    locateDevicePath fuel memory db protocol (.ok buffer) ⟨some sourcePath, some device⟩ =
      .ok (located sourcePath device (Selection.firstBest
        (matchSize fuel memory db sourcePath sourceNodes) (db.carrying protocol))) := by
  have sourceSmall : nodesSize sourceNodes < pathLimit := by
    have bound := paths.sourceSize
    omega
  have walked := paths.source.firstEnd (paths.source.length_lt sourceSmall enough)
  have difference (size : UInt64) : sourcePath + size - sourcePath = size := by
    rw [UInt64.add_comm, UInt64.add_sub_cancel]
  have small := paths.firstBest_small enough
    fun slot (member : slot ∈ db.carrying protocol) => mem_handles_of_carrying member
  have scanned := scan_matches paths enough sound protocol buffer
  simp only [locateDevicePath, if_neg notNull, walked, Exec.ok_bind, difference,
    sound.locateHandleBuffer]
  by_cases none : (db.carrying protocol).length = 0
  · rw [if_pos none, List.length_eq_zero_iff.mp none]
    rfl
  · simp only [if_neg none, scanned, Exec.ok_bind, BestMatch.of_eq_none small]
    cases best : Selection.firstBest (matchSize fuel memory db sourcePath sourceNodes)
        (db.carrying protocol) with
    | none => rfl
    | some kept =>
      have offset : UInt64.ofInt (Int32.ofNat kept.1).toInt = UInt64.ofNat kept.1 := by
        rw [toInt_ofNat_small (small kept best), UInt64.ofInt, ← UInt64.toNat_inj,
          UInt64.toNat_ofNat', UInt64.toNat_ofNat']
        omega
      rw [if_neg (Option.some_ne_none kept), BestMatch.of, offset]
      rfl

end

end

/-- `locate_device_path` succeeds if and only if the path of some handle with the
protocol begins the source path. It returns the first handle with the longest such
path and the node behind it, or `NOT_FOUND` and leaves its arguments alone. -/
theorem locateDevicePath_longest_match (fuel : Nat) (enough : 2 ^ 29 ≤ fuel)
    (memory : ByteMemory) (db : HandleDatabase) (sound : db.Sound) (protocol : Guid)
    (buffer : HandleBuffer) (sourcePath : UInt64) (notNull : sourcePath ≠ 0)
    (sourceNodes : List Node) (device : Handle)
    (paths : PathsWellFormed memory db sourcePath sourceNodes) :
    ∃ status pointers,
      locateDevicePath fuel memory db protocol (.ok buffer) ⟨some sourcePath, some device⟩ =
        .ok (status, pointers) ∧
      (status = .success ↔
        ∃ slot ∈ db.carrying protocol, ∃ nodes, Matches memory db sourceNodes slot nodes) ∧
      (status = .success → ∃ slot nodes,
        IsLongestMatch memory db protocol sourceNodes slot nodes ∧
        pointers = ⟨some (sourcePath + UInt64.ofNat (nodesSize nodes)), some (some slot)⟩) ∧
      (status ≠ .success →
        status = .notFound ∧ pointers = ⟨some sourcePath, some device⟩) := by
  have isBest := Selection.isFirstBest_firstBest
    (matchSize fuel memory db sourcePath sourceNodes) (db.carrying protocol)
  have result := locateDevicePath_eq paths enough sound protocol buffer device notNull
  cases best : Selection.firstBest (matchSize fuel memory db sourcePath sourceNodes)
      (db.carrying protocol) with
  | none =>
    rw [best] at isBest result
    refine ⟨_, _, result, ?_, nofun, fun _ => ⟨rfl, rfl⟩⟩
    simp only [reduceCtorEq, false_iff]
    rintro ⟨slot, member, nodes, found⟩
    have scored := (paths.matchSize_eq_some enough (mem_handles_of_carrying member) _).mpr
      ⟨nodes, found, rfl⟩
    rw [isBest slot member] at scored
    cases scored
  | some kept =>
    rw [best] at isBest result
    rcases isLongestMatch_of_isFirstBest paths enough isBest with ⟨nodes, longest, size⟩
    refine ⟨_, _, result, ?_, fun _ => ⟨kept.2, nodes, longest, by rw [size]⟩,
      fun failure => absurd rfl failure⟩
    rcases longest with ⟨before, after, split, found, _⟩
    simp only [true_iff]
    exact ⟨kept.2, by simp [split], nodes, found⟩

def pathMemory : ByteMemory :=
  .ofWords [0, 0, 0x0004ff7f00040101, 0x0004010200040101, 0x0004ff7f, 0x0004010200040101,
    0x0004ff7f00040103]

/-- A path of one node and one of two. -/
def twoHandles : HandleDatabase where
  protocolHandleCount := 2
  protocolHandle slot :=
    ⟨handleSignature, 1, fun _ => ⟨devicePathGuid, if slot.val = 0 then 16 else 24⟩⟩

/-- Both paths begin the path of three nodes at 40. -/
theorem locateDevicePath_longest_match_two_handles :
    locateDevicePath (2 ^ 29) pathMemory twoHandles devicePathGuid (.ok fun _ => none)
        ⟨some 40, some none⟩ = .ok (.success, ⟨some 48, some (some 1)⟩) ∧
      ∃ source nodes, IsLongestMatch pathMemory twoHandles devicePathGuid source 1 nodes := by
  have one := @PathAt.node pathMemory 16 [] (by decide) (by decide)
    (.finish (by decide) (by decide))
  have two := @PathAt.node pathMemory 24 _ (by decide) (by decide)
    (@PathAt.node pathMemory (getNextDevicePathNode pathMemory 24) [] (by decide) (by decide)
      (.finish (by decide) (by decide)))
  have source := @PathAt.node pathMemory 40 _ (by decide) (by decide)
    (@PathAt.node pathMemory (getNextDevicePathNode pathMemory 40) _ (by decide) (by decide)
      (@PathAt.node pathMemory (getNextDevicePathNode pathMemory
        (getNextDevicePathNode pathMemory 40)) [] (by decide) (by decide)
        (.finish (by decide) (by decide))))
  have sound : twoHandles.Sound := ⟨by decide, fun _ _ => rfl, fun _ => show 1 ≤ 32 by decide⟩
  have installed : ∀ slot ∈ twoHandles.handles, ∀ protocol ∈ twoHandles.protocols slot,
      protocol.guid = devicePathGuid → ∃ nodes, PathAt pathMemory protocol.interface nodes ∧
        nodesSize nodes + 4 < pathLimit := by
    intro slot _ protocol member _
    rcases List.mem_map.mp member with ⟨_, _, rfl⟩
    by_cases first : slot.val = 0
    · simp only [twoHandles, if_pos first]
      exact ⟨_, one, by decide⟩
    · simp only [twoHandles, if_neg first]
      exact ⟨_, two, by decide⟩
  have returned : locateDevicePath (2 ^ 29) pathMemory twoHandles devicePathGuid
      (.ok fun _ => none) ⟨some 40, some none⟩ = .ok (.success, ⟨some 48, some (some 1)⟩) := by
    decide +kernel
  refine ⟨returned, ?_⟩
  rcases locateDevicePath_longest_match (2 ^ 29) (Nat.le_refl _) pathMemory twoHandles sound
    devicePathGuid (fun _ => none) 40 (by decide) _ none ⟨installed, source, by decide⟩ with
    ⟨status, pointers, result, _, found, _⟩
  rw [returned, Except.ok.injEq, Prod.mk.injEq] at result
  rcases found result.1.symm with ⟨slot, nodes, longest, same⟩
  rw [← result.2, LocatePointers.mk.injEq, Option.some.injEq, Option.some.injEq,
    Option.some.injEq] at same
  exact ⟨_, nodes, same.2 ▸ longest⟩

end HypervisorFirmware.Efi
