import Mathlib.Logic.Function.Basic
import HypervisorFirmware.Efi.DevicePath

/-! # Dropping the file path of a device path

`drop_file_path_media_device_path` cuts a device path at its first file-path node. It
makes that node an end node in place: the type and the subtype are written, the length
stays. -/

namespace HypervisorFirmware.Efi

def typeMedia : UInt8 := 0x04

def subtypeFilePath : UInt8 := 0x04

/-! ## The model -/

def writeNodeType (memory : ByteMemory) (node : UInt64) (kind subtype : UInt8) : ByteMemory :=
  Function.update (Function.update memory node kind) (node + 1) subtype

def dropIteration : ByteMemory × UInt64 → Exec (ByteMemory × UInt64 ⊕ ByteMemory)
  | (memory, node) =>
    if isDevicePathEnd memory node then .ok (.inr memory)
    else
      let memory :=
        if getDevicePathNodeType memory node = typeMedia ∧
            getDevicePathNodeSubType memory node = subtypeFilePath then
          writeNodeType memory node typeEnd subtypeEntire
        else memory
      if isDevicePathEnd memory node then .ok (.inr memory)
      else .ok (.inl (memory, getNextDevicePathNode memory node))

def dropFilePathMediaDevicePath (fuel : Nat) (memory : ByteMemory) (devicePath : UInt64) :
    Exec ByteMemory :=
  Loop.run dropIteration fuel (memory, devicePath)

/-! ## Paths that are cut -/

def Node.isFilePath (node : Node) : Bool := node.take 2 == [typeMedia, subtypeFilePath]

def beforeFilePath (nodes : List Node) : List Node :=
  nodes.takeWhile fun node => !node.isFilePath

/-- Dropping the file path leaves a path of the nodes before it, whose size is that of
the nodes and of a bare end node. Nothing changes in a path without file path. -/
def DropsFilePath (memory : ByteMemory) (address : UInt64) (nodes : List Node) : Prop :=
  ∀ fuel, nodes.length < fuel →
    ∃ memory', dropFilePathMediaDevicePath fuel memory address = .ok memory' ∧
      PathAt memory' address (beforeFilePath nodes) ∧
      getDevicePathSize memory' fuel address =
        .ok (UInt64.ofNat (nodesSize (beforeFilePath nodes)) + 4) ∧
      (beforeFilePath nodes = nodes → memory' = memory)

/-- The condition: the first file-path node, if there is one, has no name. -/
def FilePathBare (nodes : List Node) : Prop :=
  ∀ node, nodes.find? Node.isFilePath = some node → node.length = 4

section

variable {memory memory' : ByteMemory} {address : UInt64} {nodes : List Node}

theorem isFilePath_node (header : 4 ≤ getDevicePathNodeSize memory address) :
    Node.isFilePath (memory.bytes address (getDevicePathNodeSize memory address).toNat) = true ↔
      getDevicePathNodeType memory address = typeMedia ∧
        getDevicePathNodeSubType memory address = subtypeFilePath := by
  rcases bytes_header memory address (UInt64.le_iff_toNat_le.mp header) with ⟨rest, split⟩
  rw [split]
  simp [Node.isFilePath, getDevicePathNodeType, getDevicePathNodeSubType]

theorem add_nodesSize_cons (memory : ByteMemory) (address : UInt64) (rest : List Node) :
    address + UInt64.ofNat (nodesSize
        (memory.bytes address (getDevicePathNodeSize memory address).toNat :: rest)) =
      getNextDevicePathNode memory address + UInt64.ofNat (nodesSize rest) := by
  rw [nodesSize_cons, ByteMemory.length_bytes, UInt64.ofNat_add, UInt64.ofNat_toNat,
    ← UInt64.add_assoc]
  rfl

theorem PathAt.size_finish (path : PathAt memory address nodes) :
    getDevicePathNodeSize memory (address + UInt64.ofNat (nodesSize nodes)) = 4 := by
  induction path with
  | finish _ size =>
    rw [← size]
    congr 1
    exact UInt64.add_zero _
  | node _ _ _ induction =>
    rw [add_nodesSize_cons]
    exact induction

theorem beforeFilePath_cons (node : Node) (rest : List Node) :
    beforeFilePath (node :: rest) =
      if node.isFilePath then [] else node :: beforeFilePath rest := by
  rw [beforeFilePath, List.takeWhile_cons]
  cases node.isFilePath with
  | true => rfl
  | false => rfl

theorem isDevicePathEnd_writeNodeType (memory : ByteMemory) (node : UInt64) :
    isDevicePathEnd (writeNodeType memory node typeEnd subtypeEntire) node = true := by
  simp [isDevicePathEnd, isDevicePathEndType, getDevicePathNodeType, getDevicePathNodeSubType,
    writeNodeType]

/-- What the loop returns: the memory as it is, or with the first file-path node written
over. -/
theorem PathAt.drop (path : PathAt memory address nodes) {fuel : Nat}
    (enough : nodes.length < fuel) :
    dropFilePathMediaDevicePath fuel memory address =
      .ok (if beforeFilePath nodes = nodes then memory
        else writeNodeType memory (address + UInt64.ofNat (nodesSize (beforeFilePath nodes)))
          typeEnd subtypeEntire) := by
  rw [dropFilePathMediaDevicePath]
  induction path generalizing fuel with
  | finish ends size =>
    obtain ⟨fuel, rfl⟩ := Nat.exists_eq_succ_of_ne_zero (Nat.ne_zero_of_lt enough)
    simp [Loop.run, dropIteration, ends, beforeFilePath]
  | @node address rest ends header _ induction =>
    obtain ⟨fuel, rfl⟩ := Nat.exists_eq_succ_of_ne_zero (Nat.ne_zero_of_lt enough)
    rw [Loop.run, dropIteration, if_neg ends, beforeFilePath_cons]
    have isFile := isFilePath_node header
    by_cases file : getDevicePathNodeType memory address = typeMedia ∧
        getDevicePathNodeSubType memory address = subtypeFilePath
    · have start : address + UInt64.ofNat 0 = address := UInt64.add_zero _
      simp only [if_pos file, isDevicePathEnd_writeNodeType, if_true, isFile.mpr file,
        nodesSize_nil, start]
      rfl
    · simp only [if_neg file, if_neg ends, if_neg (mt isFile.mp file), List.cons.injEq,
        true_and, add_nodesSize_cons]
      exact induction (Nat.lt_of_succ_lt_succ enough)

theorem node_congr {other : ByteMemory} {target : UInt64}
    (header : 4 ≤ getDevicePathNodeSize memory address)
    (agree : ∀ index < (getDevicePathNodeSize memory address).toNat,
      other (target + UInt64.ofNat index) = memory (address + UInt64.ofNat index)) :
    getDevicePathNodeSize other target = getDevicePathNodeSize memory address ∧
      isDevicePathEnd other target = isDevicePathEnd memory address ∧
      other.bytes target (getDevicePathNodeSize memory address).toNat =
        memory.bytes address (getDevicePathNodeSize memory address).toNat := by
  have four : 4 ≤ (getDevicePathNodeSize memory address).toNat := UInt64.le_iff_toNat_le.mp header
  have first : other target = memory address := by
    simpa using agree 0 (by omega)
  have second : other (target + 1) = memory (address + 1) := agree 1 (by omega)
  have third : other (target + 2) = memory (address + 2) := agree 2 (by omega)
  have fourth : other (target + 3) = memory (address + 3) := agree 3 (by omega)
  refine ⟨?_, ?_, ?_⟩
  · rw [getDevicePathNodeSize, getDevicePathNodeSize, third, fourth]
  · rw [isDevicePathEnd, isDevicePathEndType, getDevicePathNodeType, getDevicePathNodeSubType,
      first, second]
    rfl
  · apply List.map_congr_left
    intro index member
    exact agree index (List.mem_range.mp member)

theorem PathAt.copied {copy : ByteMemory} {target : UInt64} (path : PathAt memory address nodes)
    (same : ∀ index < nodesSize nodes + 4,
      copy (target + UInt64.ofNat index) = memory (address + UInt64.ofNat index)) :
    PathAt copy target nodes := by
  induction path generalizing target with
  | @finish address ends size =>
    have four : (getDevicePathNodeSize memory address).toNat = 4 := congrArg UInt64.toNat size
    have agree : ∀ index < (getDevicePathNodeSize memory address).toNat,
        copy (target + UInt64.ofNat index) = memory (address + UInt64.ofNat index) := by
      intro index inside
      exact same index (by rw [nodesSize_nil]; omega)
    have header : 4 ≤ getDevicePathNodeSize memory address := by
      rw [size]
      exact UInt64.le_refl 4
    rcases node_congr header agree with ⟨sameSize, sameEnd, _⟩
    exact .finish (sameEnd.trans ends) (sameSize.trans size)
  | @node address rest ends header later induction =>
    rw [nodesSize_cons, ByteMemory.length_bytes] at same
    rcases node_congr header fun index inside => same index (by omega) with
      ⟨sameSize, sameEnd, sameBytes⟩
    have next : PathAt copy (getNextDevicePathNode copy target) rest := by
      apply induction
      intro index inside
      have shifted := same ((getDevicePathNodeSize memory address).toNat + index) (by omega)
      rw [UInt64.ofNat_add, UInt64.ofNat_toNat, ← UInt64.add_assoc, ← UInt64.add_assoc] at shifted
      rw [getNextDevicePathNode, sameSize]
      exact shifted
    have node := @PathAt.node copy target rest (by rw [sameEnd]; exact ends)
      (by rw [sameSize]; exact header) next
    rw [sameSize, sameBytes] at node
    exact node

theorem add_ofNat_ne (address : UInt64) {first second : Nat} (different : first ≠ second)
    (firstInside : first < 2 ^ 64) (secondInside : second < 2 ^ 64) :
    address + UInt64.ofNat first ≠ address + UInt64.ofNat second := by
  intro equal
  have numbers := congrArg UInt64.toNat (UInt64.add_right_inj _ |>.mp equal)
  rw [UInt64.toNat_ofNat', UInt64.toNat_ofNat', Nat.mod_eq_of_lt firstInside,
    Nat.mod_eq_of_lt secondInside] at numbers
  exact different numbers

theorem writeNodeType_before (memory : ByteMemory) (address : UInt64) (kind subtype : UInt8)
    {index distance : Nat} (before : index < distance) (inside : distance + 1 < 2 ^ 64) :
    writeNodeType memory (address + UInt64.ofNat distance) kind subtype
        (address + UInt64.ofNat index) =
      memory (address + UInt64.ofNat index) := by
  have next : address + UInt64.ofNat distance + 1 = address + UInt64.ofNat (distance + 1) := by
    rw [UInt64.ofNat_add, ← UInt64.add_assoc]
    rfl
  have notFirst := add_ofNat_ne address (Nat.ne_of_lt before) (by omega) (by omega)
  have notSecond := add_ofNat_ne address (Nat.ne_of_lt (Nat.lt_succ_of_lt before)) (by omega) inside
  rw [writeNodeType, next, Function.update_of_ne notSecond, Function.update_of_ne notFirst]

theorem size_writeNodeType (memory : ByteMemory) (node : UInt64) (kind subtype : UInt8) :
    getDevicePathNodeSize (writeNodeType memory node kind subtype) node =
      getDevicePathNodeSize memory node := by
  have different : ∀ first second : UInt64, first ≠ second → node + first ≠ node + second :=
    fun _ _ different equal => different (UInt64.add_right_inj _ |>.mp equal)
  have start : node = node + 0 := (UInt64.add_zero _).symm
  have notFirst : ∀ byte : UInt64, byte ≠ 0 → node + byte ≠ node := by
    intro byte nonzero equal
    exact different _ _ nonzero (equal.trans start)
  rw [getDevicePathNodeSize, writeNodeType, Function.update_of_ne (different 2 1 (by decide)),
    Function.update_of_ne (notFirst 2 (by decide)), Function.update_of_ne
    (different 3 1 (by decide)), Function.update_of_ne (notFirst 3 (by decide))]
  rfl

theorem nodesSize_beforeFilePath {file : Node} (found : nodes.find? Node.isFilePath = some file) :
    nodesSize (beforeFilePath nodes) + file.length ≤ nodesSize nodes := by
  induction nodes with
  | nil => cases found
  | cons node rest induction =>
    rw [beforeFilePath_cons]
    by_cases isFile : node.isFilePath = true
    · rw [List.find?_cons_of_pos isFile] at found
      cases found
      rw [if_pos isFile, nodesSize_cons, nodesSize_nil]
      omega
    · rw [List.find?_cons_of_neg isFile] at found
      have later := induction found
      rw [if_neg isFile, nodesSize_cons, nodesSize_cons]
      omega

/-- Writing over a bare file-path node ends the path there. -/
theorem PathAt.cut (path : PathAt memory address nodes) (fits : nodesSize nodes + 4 ≤ 2 ^ 64)
    {file : Node} (found : nodes.find? Node.isFilePath = some file) (bare : file.length = 4) :
    PathAt (writeNodeType memory (address + UInt64.ofNat (nodesSize (beforeFilePath nodes)))
      typeEnd subtypeEntire) address (beforeFilePath nodes) := by
  induction path with
  | finish => cases found
  | @node address rest ends header later induction =>
    have room := nodesSize_beforeFilePath found
    by_cases isFile : Node.isFilePath
        (memory.bytes address (getDevicePathNodeSize memory address).toNat) = true
    · rw [List.find?_cons_of_pos isFile] at found
      cases found
      have start : address + UInt64.ofNat 0 = address := UInt64.add_zero _
      rw [beforeFilePath_cons, if_pos isFile, nodesSize_nil, start]
      apply PathAt.finish (isDevicePathEnd_writeNodeType memory address)
      rw [size_writeNodeType]
      apply UInt64.toNat_inj.mp
      rwa [ByteMemory.length_bytes] at bare
    · rw [List.find?_cons_of_neg isFile] at found
      rw [beforeFilePath_cons, if_neg isFile] at room ⊢
      rw [nodesSize_cons, ByteMemory.length_bytes] at room
      have rest := induction (by rw [nodesSize_cons] at fits; omega) found
      rw [← add_nodesSize_cons] at rest
      generalize isCut : writeNodeType memory _ _ _ = cut at rest ⊢
      have agree : ∀ index < (getDevicePathNodeSize memory address).toNat,
          cut (address + UInt64.ofNat index) = memory (address + UInt64.ofNat index) := by
        intro index inside
        rw [← isCut]
        apply writeNodeType_before
        · rw [nodesSize_cons, ByteMemory.length_bytes]
          omega
        · rw [nodesSize_cons, ByteMemory.length_bytes]
          omega
      rcases node_congr header agree with ⟨sameSize, sameEnd, sameBytes⟩
      have node := @PathAt.node cut address _ (by rw [sameEnd]; exact ends)
        (by rw [sameSize]; exact header)
        (by rw [getNextDevicePathNode, sameSize]; exact rest)
      rw [sameSize, sameBytes] at node
      exact node

theorem beforeFilePath_eq_self_iff (nodes : List Node) :
    beforeFilePath nodes = nodes ↔ nodes.find? Node.isFilePath = none := by
  induction nodes with
  | nil => simp [beforeFilePath]
  | cons node rest induction =>
    rw [beforeFilePath_cons]
    by_cases isFile : node.isFilePath = true
    · simp [isFile]
    · simp [isFile, induction]

theorem PathAt.length_file (path : PathAt memory address nodes) {file : Node}
    (found : nodes.find? Node.isFilePath = some file) :
    file.length = (getDevicePathNodeSize memory
      (address + UInt64.ofNat (nodesSize (beforeFilePath nodes)))).toNat := by
  induction path with
  | finish => cases found
  | @node address rest _ _ _ induction =>
    rw [beforeFilePath_cons]
    by_cases isFile : Node.isFilePath
        (memory.bytes address (getDevicePathNodeSize memory address).toNat) = true
    · rw [List.find?_cons_of_pos isFile] at found
      cases found
      have start : address + UInt64.ofNat 0 = address := UInt64.add_zero _
      rw [if_pos isFile, nodesSize_nil, start, ByteMemory.length_bytes]
    · rw [List.find?_cons_of_neg isFile] at found
      rw [if_neg isFile, add_nodesSize_cons]
      exact induction found

/-- Dropping the file path is right exactly if the first file-path node is bare. -/
theorem dropsFilePath_iff_bare (path : PathAt memory address nodes)
    (fits : nodesSize nodes + 4 ≤ 2 ^ 64) :
    DropsFilePath memory address nodes ↔ FilePathBare nodes := by
  constructor
  · intro drops file found
    rcases drops (nodes.length + 1) (Nat.lt_succ_self _) with ⟨memory', dropped, cut, _⟩
    have some : ¬beforeFilePath nodes = nodes := by
      rw [beforeFilePath_eq_self_iff, found]
      exact Option.some_ne_none _
    rw [path.drop (Nat.lt_succ_self _), if_neg some] at dropped
    cases dropped
    have four := cut.size_finish
    rw [size_writeNodeType] at four
    rw [path.length_file found, four]
    rfl
  · intro bare fuel enough
    cases found : nodes.find? Node.isFilePath with
    | none =>
      have all := (beforeFilePath_eq_self_iff nodes).mpr found
      refine ⟨memory, ?_, ?_, ?_, fun _ => rfl⟩
      · rw [path.drop enough, if_pos all]
      · rw [all]
        exact path
      · rw [all]
        exact path.size enough
    | some file =>
      have some : ¬beforeFilePath nodes = nodes := by
        rw [beforeFilePath_eq_self_iff, found]
        exact Option.some_ne_none _
      have cut := path.cut fits found (bare file found)
      have fewer : (beforeFilePath nodes).length ≤ nodes.length :=
        (List.takeWhile_prefix _).length_le
      refine ⟨_, ?_, cut, cut.size (by omega), fun all => absurd all some⟩
      rw [path.drop enough, if_neg some]

end

/-! ## Two paths -/

theorem dropsFilePath_iff_bare_one_node :
    DropsFilePath (.ofWords [0, 0, 0x0004040400040101, 0x0004ff7f]) 16
      [[0x01, 0x01, 0x04, 0x00], [0x04, 0x04, 0x04, 0x00]] := by
  let memory := ByteMemory.ofWords [0, 0, 0x0004040400040101, 0x0004ff7f]
  have path := @PathAt.node memory 16 _ (by decide) (by decide)
    (@PathAt.node memory (getNextDevicePathNode memory 16) [] (by decide) (by decide)
      (.finish (by decide) (by decide)))
  have second : getNextDevicePathNode memory 16 = 20 := by decide
  have firstSize : (getDevicePathNodeSize memory 16).toNat = 4 := by decide
  have secondSize : (getDevicePathNodeSize memory 20).toNat = 4 := by decide
  have nodes : [memory.bytes 16 4, memory.bytes 20 4] =
      [[0x01, 0x01, 0x04, 0x00], [0x04, 0x04, 0x04, 0x00]] := by decide
  rw [second, firstSize, secondSize, nodes] at path
  apply (dropsFilePath_iff_bare path (by decide)).mpr
  intro file found
  cases found
  rfl

/-- With a name of four bytes in the file-path node, eight bytes are counted and copied
where only the end node is left. -/
theorem not_dropsFilePath_named :
    PathAt (.ofWords [0, 0, 0x0000004100080404, 0x0004ff7f]) 16
        [[0x04, 0x04, 0x08, 0x00, 0x41, 0x00, 0x00, 0x00]] ∧
      (do
        let memory ← dropFilePathMediaDevicePath 2
          (.ofWords [0, 0, 0x0000004100080404, 0x0004ff7f]) 16
        getDevicePathSize memory 2 16) = .ok 8 ∧
      ¬DropsFilePath (.ofWords [0, 0, 0x0000004100080404, 0x0004ff7f]) 16
        [[0x04, 0x04, 0x08, 0x00, 0x41, 0x00, 0x00, 0x00]] := by
  have size : (do
      let memory ← dropFilePathMediaDevicePath 2
        (.ofWords [0, 0, 0x0000004100080404, 0x0004ff7f]) 16
      getDevicePathSize memory 2 16) = .ok 8 := by decide
  refine ⟨?_, size, ?_⟩
  · exact @PathAt.node _ 16 _ (by decide) (by decide) (.finish (by decide) (by decide))
  · intro drops
    rcases drops 2 (by decide) with ⟨memory, dropped, _, four, _⟩
    rw [dropped, Exec.ok_bind, four] at size
    exact absurd (Except.ok.inj size) (by decide)

end HypervisorFirmware.Efi
