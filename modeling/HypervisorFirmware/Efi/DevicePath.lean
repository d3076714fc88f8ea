import HypervisorFirmware.Foundation.ByteMemory
import HypervisorFirmware.Foundation.Codeword
import HypervisorFirmware.Foundation.Execution

/-! # Device paths

`efi/device_path.rs`: a device path is a row of nodes in memory. Each node begins
with its type, its subtype and its length in bytes. -/

namespace HypervisorFirmware.Efi

def typeEnd : UInt8 := 0x7f

def subtypeInstance : UInt8 := 0x01

def subtypeEntire : UInt8 := 0xff

section

variable (memory : ByteMemory)

def nodeLength (low high : UInt8) : UInt64 := low.toUInt64 ||| high.toUInt64 <<< 8

section

variable (node : UInt64)

def getDevicePathNodeSize : UInt64 :=
  nodeLength (memory (node + 2)) (memory (node + 3))

def getDevicePathNodeType : UInt8 := memory node

def getDevicePathNodeSubType : UInt8 := memory (node + 1)

def getNextDevicePathNode : UInt64 := node + getDevicePathNodeSize memory node

def isDevicePathEndType : Bool := getDevicePathNodeType memory node == typeEnd

def isDevicePathEnd : Bool :=
  isDevicePathEndType memory node && getDevicePathNodeSubType memory node == subtypeEntire

def isDevicePathEndInstance : Bool :=
  isDevicePathEndType memory node && getDevicePathNodeSubType memory node == subtypeInstance

end

def sizeIteration : UInt64 × UInt64 → Exec (UInt64 × UInt64 ⊕ UInt64)
  | (size, node) =>
    let size := size + getDevicePathNodeSize memory node
    if getDevicePathNodeType memory node = typeEnd ∧
        getDevicePathNodeSubType memory node = subtypeEntire then .ok (.inr size)
    else .ok (.inl (size, getNextDevicePathNode memory node))

def getDevicePathSize (fuel : Nat) (devicePath : UInt64) : Exec UInt64 :=
  Loop.run (sizeIteration memory) fuel (0, devicePath)

def compareDevicePath (devicePath1 devicePath2 : UInt64) (size : Nat) : Bool :=
  (List.range size).all fun index =>
    memory (devicePath1 + UInt64.ofNat index) == memory (devicePath2 + UInt64.ofNat index)

end

/-! ## Paths as lists of nodes -/

abbrev Node := List UInt8

namespace Node

def WellFormed (node : Node) : Prop :=
  ∃ kind subtype low high rest, node = kind :: subtype :: low :: high :: rest ∧
    node.length = (nodeLength low high).toNat

def isEndInstance (node : Node) : Bool := node.take 2 == [typeEnd, subtypeInstance]

theorem prefixFree : Codeword.PrefixFree WellFormed where
  nonempty node := by
    rintro ⟨_, _, _, _, _, rfl, _⟩
    exact List.cons_ne_nil _ _
  unique first second := by
    rintro ⟨kind, subtype, low, high, rest, rfl, firstLength⟩
      ⟨kind', subtype', low', high', rest', rfl, secondLength⟩ begins
    have headers := begins
    simp only [List.cons_prefix_cons] at headers
    rcases headers with ⟨rfl, rfl, rfl, rfl, _⟩
    exact begins.eq_of_length (firstLength.trans secondLength.symm)

end Node

/-- The path at an address has these nodes before the node that ends it, which has
no more than its header. -/
inductive PathAt (memory : ByteMemory) : UInt64 → List Node → Prop
  | finish {address : UInt64} : isDevicePathEnd memory address →
      getDevicePathNodeSize memory address = 4 → PathAt memory address []
  | node {address : UInt64} {rest : List Node} : ¬ isDevicePathEnd memory address →
      4 ≤ getDevicePathNodeSize memory address →
      PathAt memory (getNextDevicePathNode memory address) rest →
      PathAt memory address
        (memory.bytes address (getDevicePathNodeSize memory address).toNat :: rest)

def nodesSize (nodes : List Node) : Nat := nodes.flatten.length

def firstInstance (nodes : List Node) : List Node :=
  nodes.takeWhile fun node => !node.isEndInstance

theorem firstInstance_cons (node : Node) (rest : List Node) :
    firstInstance (node :: rest) =
      if node.isEndInstance then [] else node :: firstInstance rest := by
  rw [firstInstance, List.takeWhile_cons]
  cases node.isEndInstance with
  | true => rfl
  | false => rfl

theorem firstInstance_begins (nodes : List Node) : firstInstance nodes <+: nodes :=
  List.takeWhile_prefix _

@[simp] theorem nodesSize_nil : nodesSize [] = 0 := rfl

@[simp] theorem nodesSize_cons (node : Node) (rest : List Node) :
    nodesSize (node :: rest) = node.length + nodesSize rest := by
  simp [nodesSize]

theorem nodesSize_le {first second : List Node} (begins : first <+: second) :
    nodesSize first ≤ nodesSize second := begins.flatten.length_le

section

variable {memory : ByteMemory} {address source : UInt64} {nodes sourceNodes : List Node}

theorem bytes_header (memory : ByteMemory) (address : UInt64) {size : Nat} (header : 4 ≤ size) :
    ∃ rest, memory.bytes address size =
      memory address :: memory (address + 1) :: memory (address + 2) :: memory (address + 3) ::
        rest := by
  refine ⟨memory.bytes (address + UInt64.ofNat 4) (size - 4), ?_⟩
  rw [← Nat.add_sub_cancel' header, ByteMemory.bytes_add, Nat.add_sub_cancel_left]
  simp [ByteMemory.bytes, List.range_succ]

theorem wellFormed_node (header : 4 ≤ getDevicePathNodeSize memory address) :
    Node.WellFormed (memory.bytes address (getDevicePathNodeSize memory address).toNat) := by
  rcases bytes_header memory address (UInt64.le_iff_toNat_le.mp header) with ⟨rest, split⟩
  refine ⟨_, _, _, _, rest, split, ?_⟩
  rw [ByteMemory.length_bytes]
  rfl

theorem isEndInstance_node (header : 4 ≤ getDevicePathNodeSize memory address) :
    Node.isEndInstance (memory.bytes address (getDevicePathNodeSize memory address).toNat) =
      isDevicePathEndInstance memory address := by
  rcases bytes_header memory address (UInt64.le_iff_toNat_le.mp header) with ⟨rest, split⟩
  rw [split]
  simp [Node.isEndInstance, isDevicePathEndInstance, isDevicePathEndType, getDevicePathNodeType,
    getDevicePathNodeSubType]

section

variable (path : PathAt memory address nodes)

include path

theorem PathAt.wellFormed : ∀ node ∈ nodes, Node.WellFormed node := by
  induction path with
  | finish => simp
  | node _ header _ induction =>
    intro node member
    rcases List.mem_cons.mp member with rfl | later
    · exact wellFormed_node header
    · exact induction node later

theorem PathAt.bytes : memory.bytes address (nodesSize nodes) = nodes.flatten := by
  induction path with
  | finish => rfl
  | node _ _ _ induction =>
    rw [nodesSize_cons, ByteMemory.length_bytes, ByteMemory.bytes_add, UInt64.ofNat_toNat,
      List.flatten_cons, ← induction]
    rfl

theorem PathAt.length_le : 4 * nodes.length ≤ nodesSize nodes := by
  induction path with
  | finish => exact Nat.le_refl _
  | node _ header _ induction =>
    have four := UInt64.le_iff_toNat_le.mp header
    rw [nodesSize_cons, ByteMemory.length_bytes, List.length_cons]
    change 4 ≤ _ at four
    omega

theorem PathAt.size {fuel : Nat} (enough : nodes.length < fuel) :
    getDevicePathSize memory fuel address = .ok (UInt64.ofNat (nodesSize nodes) + 4) := by
  suffices general : ∀ size, Loop.run (sizeIteration memory) fuel (size, address) =
      .ok (size + (UInt64.ofNat (nodesSize nodes) + 4)) by
    rw [getDevicePathSize, general, UInt64.zero_add]
  induction path generalizing fuel with
  | finish ends size =>
    intro before
    obtain ⟨fuel, rfl⟩ := Nat.exists_eq_succ_of_ne_zero (Nat.ne_zero_of_lt enough)
    simp only [isDevicePathEnd, isDevicePathEndType, Bool.and_eq_true, beq_iff_eq] at ends
    simp [Loop.run, sizeIteration, ends, size]
  | @node address rest ends header _ induction =>
    intro before
    obtain ⟨fuel, rfl⟩ := Nat.exists_eq_succ_of_ne_zero (Nat.ne_zero_of_lt enough)
    simp only [isDevicePathEnd, isDevicePathEndType, Bool.and_eq_true, beq_iff_eq] at ends
    simp only [Loop.run, sizeIteration, if_neg ends]
    rw [induction (Nat.lt_of_succ_lt_succ enough), nodesSize_cons, ByteMemory.length_bytes,
      UInt64.ofNat_add, UInt64.ofNat_toNat]
    simp only [UInt64.add_assoc]

end

theorem compareDevicePath_eq (memory : ByteMemory) (first second : UInt64) (size : Nat) :
    compareDevicePath memory first second size ↔
      memory.bytes first size = memory.bytes second size := by
  simp [compareDevicePath, ByteMemory.bytes]

theorem PathAt.begins_iff (path : PathAt memory address nodes)
    (sourcePath : PathAt memory source sourceNodes) :
    nodesSize nodes ≤ nodesSize (firstInstance sourceNodes) ∧
        compareDevicePath memory address source (nodesSize nodes) ↔
      nodes <+: firstInstance sourceNodes := by
  have begins := firstInstance_begins sourceNodes
  have sourceBytes : ∀ size ≤ nodesSize (firstInstance sourceNodes),
      memory.bytes source size = (firstInstance sourceNodes).flatten.take size := by
    intro size inside
    have within := Nat.le_trans inside (nodesSize_le begins)
    rw [nodesSize] at inside
    rw [List.prefix_iff_eq_take.mp begins.flatten, List.take_take, Nat.min_eq_left inside,
      ← sourcePath.bytes, ByteMemory.take_bytes _ _ within]
  rw [compareDevicePath_eq, path.bytes]
  constructor
  · rintro ⟨inside, same⟩
    apply Node.prefixFree.words_of_text path.wellFormed
    · exact fun node member => sourcePath.wellFormed node (begins.subset member)
    · rw [same, sourceBytes _ inside]
      exact List.take_prefix _ _
  · intro found
    have inside := nodesSize_le found
    refine ⟨inside, ?_⟩
    rw [sourceBytes _ inside]
    exact List.prefix_iff_eq_take.mp found.flatten

end

end HypervisorFirmware.Efi
