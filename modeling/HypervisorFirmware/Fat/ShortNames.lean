import Mathlib.Data.List.TakeWhile
import HypervisorFirmware.Fat.Open

/-! # 8.3 names

The eleven bytes of a short name on disk, the text that `get_short_name` makes of
them, and what `compare_short_name` compares it with. -/

namespace HypervisorFirmware.Fat

/-- A base of one to eight bytes and an extension of up to three, of printable ASCII
other than the dot. -/
structure ShortName where
  base : List UInt8
  extension : List UInt8
  named : base ≠ []
  baseFits : base.length ≤ 8
  extensionFits : extension.length ≤ 3
  printable : ∀ byte ∈ base ++ extension, 0x20 < byte.toNat ∧ byte.toNat < 0x7f
  noDot : ∀ byte ∈ base ++ extension, byte ≠ 46

/-! ## Padding -/

theorem getLen_padded {text : List UInt8} (nonempty : text ≠ [])
    (noSpace : ∀ byte ∈ text, byte ≠ 32) (spaces : Nat) :
    getLen (text ++ List.replicate spaces 32) = text.length := by
  have padding : (List.replicate spaces (32 : UInt8)).findIdx? (fun byte => decide (byte ≠ 32)) =
      none := by
    rw [List.findIdx?_eq_none_iff]
    intro byte member
    simp [List.eq_of_mem_replicate member]
  have last : text.reverse.findIdx? (fun byte => decide (byte ≠ 32)) = some 0 := by
    cases reversed : text.reverse with
    | nil => exact absurd (List.reverse_eq_nil_iff.mp reversed) nonempty
    | cons head tail =>
      have member : head ∈ text := by
        rw [← List.mem_reverse, reversed]
        exact List.mem_cons_self
      simp [List.findIdx?_cons, noSpace head member]
  unfold getLen
  rw [List.reverse_append, List.reverse_replicate, List.findIdx?_append, padding, last]
  simp

theorem takeWhile_ofFn {text : List UInt8} (fits : text.length ≤ efiFatShortNameLen + 1)
    (noZero : ∀ byte ∈ text, byte ≠ 0) :
    (Vector.ofFn fun index : Fin (efiFatShortNameLen + 1) => text.getD index.val 0).toList.takeWhile
      (fun byte => decide (byte ≠ 0)) = text := by
  have filled : (Vector.ofFn fun index : Fin (efiFatShortNameLen + 1) =>
      text.getD index.val 0).toList =
      text ++ List.replicate (efiFatShortNameLen + 1 - text.length) 0 := by
    apply List.ext_getElem
    · simp
      omega
    · intro index _ _
      by_cases inside : index < text.length
      · simp [List.getElem_append_left, inside]
      · rw [List.getElem_append_right (by omega)]
        simp [inside]
  have stops : (List.replicate (efiFatShortNameLen + 1 - text.length) (0 : UInt8)).takeWhile
      (fun byte => decide (byte ≠ 0)) = [] := by
    simp
  rw [filled, List.takeWhile_append_of_pos, stops, List.append_nil]
  intro byte member
  exact decide_eq_true (noZero byte member)

namespace ShortName

def onDisk (name : ShortName) : List UInt8 :=
  name.base ++ List.replicate (8 - name.base.length) 32 ++
    (name.extension ++ List.replicate (3 - name.extension.length) 32)

def spelled (name : ShortName) : List UInt8 :=
  if name.extension = [] then name.base else name.base ++ 46 :: name.extension

variable (name : ShortName)

theorem noSpace_base : ∀ byte ∈ name.base, byte ≠ 32 := by
  intro byte member space
  have visible := (name.printable byte (List.mem_append_left _ member)).1
  rw [space] at visible
  exact absurd visible (by decide)

theorem noSpace_extension : ∀ byte ∈ name.extension, byte ≠ 32 := by
  intro byte member space
  have visible := (name.printable byte (List.mem_append_right _ member)).1
  rw [space] at visible
  exact absurd visible (by decide)

theorem spelled_printable : ∀ byte ∈ name.spelled, 0x20 < byte.toNat ∧ byte.toNat < 0x7f := by
  intro byte member
  rw [spelled] at member
  split_ifs at member with plain
  · exact name.printable byte (List.mem_append_left _ member)
  · rcases List.mem_append.mp member with inBase | behind
    · exact name.printable byte (List.mem_append_left _ inBase)
    · rcases List.mem_cons.mp behind with rfl | inExtension
      · decide
      · exact name.printable byte (List.mem_append_right _ inExtension)

theorem length_spelled_le : name.spelled.length ≤ efiFatShortNameLen + 1 := by
  have base := name.baseFits
  have extension := name.extensionFits
  have whole : efiFatShortNameLen + 1 = 12 := rfl
  rw [spelled, whole]
  split_ifs
  · omega
  · rw [List.length_append, List.length_cons]
    omega

theorem base_onDisk : name.onDisk.take (getLen (name.onDisk.take 8)) = name.base := by
  have fits := name.baseFits
  have padded : (name.base ++ List.replicate (8 - name.base.length) (32 : UInt8)).length = 8 := by
    rw [List.length_append, List.length_replicate]
    omega
  rw [onDisk, List.take_left' padded, getLen_padded name.named name.noSpace_base,
    List.append_assoc, List.take_left]

theorem extension_onDisk :
    name.onDisk.drop 8 = name.extension ++ List.replicate (3 - name.extension.length) 32 := by
  have fits := name.baseFits
  have padded : (name.base ++ List.replicate (8 - name.base.length) (32 : UInt8)).length = 8 := by
    rw [List.length_append, List.length_replicate]
    omega
  rw [onDisk, List.drop_left' padded]

/-- The text of `get_short_name` is the spelling, filled up with zeros. -/
theorem getShortName_onDisk :
    getShortName name.onDisk = Vector.ofFn fun index => name.spelled.getD index.val 0 := by
  have three : (name.extension ++ List.replicate (3 - name.extension.length) (32 : UInt8)).take 3 =
      name.extension ++ List.replicate (3 - name.extension.length) 32 := by
    have fits := name.extensionFits
    apply List.take_of_length_le
    rw [List.length_append, List.length_replicate]
    omega
  have ninth : name.onDisk.getD 8 0 = (name.onDisk.drop 8).getD 0 0 := by
    simp [List.getD_eq_getElem?_getD]
  simp only [getShortName]
  rw [base_onDisk, ninth, extension_onDisk, three, spelled]
  congr 1
  funext index
  congr 1
  by_cases plain : name.extension = []
  · simp [plain]
  · obtain ⟨head, tail, split⟩ := List.exists_cons_of_ne_nil plain
    have letter : head ≠ 32 := name.noSpace_extension head (by rw [split]; exact List.mem_cons_self)
    have first : (name.extension ++ List.replicate (3 - name.extension.length) (32 : UInt8)).getD
        0 0 ≠ 32 := by
      rw [split]
      exact letter
    rw [if_pos first, if_neg plain, getLen_padded plain name.noSpace_extension, List.take_left,
      List.filter_eq_self.mpr]
    intro byte member
    exact decide_eq_true (name.noSpace_extension byte member)

end ShortName

/-! ## Case -/

def IsLetter (byte : UInt8) : Prop :=
  (65 ≤ byte.toNat ∧ byte.toNat ≤ 90) ∨ (97 ≤ byte.toNat ∧ byte.toNat ≤ 122)

def lower (byte : UInt8) : UInt8 :=
  if 65 ≤ byte.toNat ∧ byte.toNat ≤ 90 then byte + 32 else byte

def swapCase (byte : UInt8) : UInt8 :=
  if 65 ≤ byte.toNat ∧ byte.toNat ≤ 90 then byte + 32
  else if 97 ≤ byte.toNat ∧ byte.toNat ≤ 122 then byte - 32
  else byte

theorem toNat_lower (byte : UInt8) : (lower byte).toNat =
      if 65 ≤ byte.toNat ∧ byte.toNat ≤ 90 then byte.toNat + 32 else byte.toNat := by
  unfold lower
  split_ifs with upper
  · rw [UInt8.toNat_add]
    simp only [UInt8.reduceToNat]
    omega
  · rfl

theorem toNat_swapCase (byte : UInt8) : (swapCase byte).toNat =
      if 65 ≤ byte.toNat ∧ byte.toNat ≤ 90 then byte.toNat + 32
      else if 97 ≤ byte.toNat ∧ byte.toNat ≤ 122 then byte.toNat - 32
      else byte.toNat := by
  unfold swapCase
  split_ifs with upper small
  · rw [UInt8.toNat_add]
    simp only [UInt8.reduceToNat]
    omega
  · have bound := byte.toNat_lt
    rw [UInt8.toNat_sub]
    simp only [UInt8.reduceToNat]
    omega
  · rfl

theorem lower_swapCase (byte : UInt8) : lower (swapCase byte) = lower byte := by
  have swapped := toNat_swapCase byte
  rw [← UInt8.toNat_inj, toNat_lower, toNat_lower]
  split_ifs at swapped ⊢ <;> omega

theorem swapCase_ne_of_letter {byte : UInt8} (letter : IsLetter byte) : swapCase byte ≠ byte := by
  have swapped := toNat_swapCase byte
  rw [Ne, ← UInt8.toNat_inj]
  unfold IsLetter at letter
  split_ifs at swapped <;> omega

theorem swapCase_ascii {byte : UInt8} (ascii : byte.toNat < 0x80) :
    (swapCase byte).toNat < 0x80 := by
  have swapped := toNat_swapCase byte
  split_ifs at swapped <;> omega

theorem eq_of_lower_eq {byte other : UInt8} (notLetter : ¬IsLetter byte)
    (same : lower other = lower byte) : other = byte := by
  have small := toNat_lower byte
  have large := toNat_lower other
  rw [← UInt8.toNat_inj] at same ⊢
  unfold IsLetter at notLetter
  split_ifs at small large <;> omega

theorem eq_of_map_lower_eq {bytes others : List UInt8} (notLetter : ∀ byte ∈ bytes, ¬IsLetter byte)
    (same : others.map lower = bytes.map lower) : others = bytes := by
  induction bytes generalizing others with
  | nil => exact List.map_eq_nil_iff.mp same
  | cons byte bytes induction =>
    cases others with
    | nil => cases same
    | cons other others =>
      rw [List.map_cons, List.map_cons, List.cons.injEq] at same
      rw [eq_of_lower_eq (notLetter byte List.mem_cons_self) same.1,
        induction (fun later member => notLetter later (List.mem_cons_of_mem byte member))
          same.2]

def asciiText (bytes : List UInt8) : List Char := bytes.map Char.ofUInt8

theorem toNat_ofUInt8 (byte : UInt8) : (Char.ofUInt8 byte).toNat = byte.toNat :=
  UInt8.toNat_toUInt32 byte

theorem utf8_asciiText {bytes : List UInt8} (ascii : ∀ byte ∈ bytes, byte.toNat < 0x80) :
    EfiStr.utf8 (asciiText bytes) = bytes := by
  induction bytes with
  | nil => rfl
  | cons byte bytes induction =>
    have small := ascii byte List.mem_cons_self
    have value := toNat_ofUInt8 byte
    have encoded : String.utf8EncodeChar (Char.ofUInt8 byte) = [byte] := by
      rcases EfiStr.utf8EncodeChar_cases (show (Char.ofUInt8 byte).toNat < 0x10000 by omega) with
        ⟨_, bytes⟩ | ⟨⟨large, _⟩, _⟩ | ⟨large, _⟩
      · rw [bytes, value, UInt8.ofNat_toNat]
      · omega
      · omega
    rw [asciiText, List.map_cons, EfiStr.utf8_cons, encoded, List.singleton_append]
    exact congrArg (byte :: ·)
      (induction fun other member => ascii other (List.mem_cons_of_mem byte member))

/-! ## Matching -/

namespace ShortName

theorem compareShortName_iff (name : ShortName) (entry : DirectoryEntry) (text : List Char) :
    compareShortName text { entry with name := getShortName name.onDisk } = true ↔
      EfiStr.utf8 text = name.spelled := by
  have noZero : ∀ byte ∈ name.spelled, byte ≠ 0 := by
    intro byte member zero
    have visible := (name.spelled_printable byte member).1
    rw [zero] at visible
    exact absurd visible (by decide)
  rw [compareShortName, getShortName_onDisk, takeWhile_ofFn name.length_spelled_le noZero,
    beq_iff_eq, eq_comm]

def SameIgnoringCase (first second : ShortName) : Prop :=
  first.onDisk.map lower = second.onDisk.map lower

/-- A name is matched by the ASCII strings that spell it in any case, and by no string
that matches a name with other letters. -/
structure MatchedIgnoringCase (name : ShortName) (entry : DirectoryEntry) : Prop where
  spelling : ∀ text : List Char, (∀ character ∈ text, character.toNat < 0x80) →
    (compareShortName text { entry with name := getShortName name.onDisk } = true ↔
      (EfiStr.utf8 text).map lower = name.spelled.map lower)
  unique : ∀ other : ShortName, ∀ text : List Char,
    compareShortName text { entry with name := getShortName name.onDisk } = true →
    compareShortName text { entry with name := getShortName other.onDisk } = true →
    name.SameIgnoringCase other

theorem base_of_spelled (name : ShortName) :
    name.spelled.takeWhile (fun byte => decide (byte ≠ 46)) = name.base := by
  have noDot : ∀ byte ∈ name.base, decide (byte ≠ 46) = true := by
    intro byte member
    exact decide_eq_true (name.noDot byte (List.mem_append_left _ member))
  rw [spelled]
  split_ifs
  · exact List.takeWhile_eq_self_iff.mpr noDot
  · rw [List.takeWhile_append_of_pos noDot]
    simp

theorem extension_of_spelled (name : ShortName) :
    (name.spelled.dropWhile (fun byte => decide (byte ≠ 46))).drop 1 = name.extension := by
  have noDot : ∀ byte ∈ name.base, decide (byte ≠ 46) = true := by
    intro byte member
    exact decide_eq_true (name.noDot byte (List.mem_append_left _ member))
  rw [spelled]
  split_ifs with plain
  · rw [List.dropWhile_eq_nil_iff.mpr noDot, plain]
    rfl
  · rw [List.dropWhile_append_of_pos noDot]
    simp

theorem onDisk_of_spelled {first second : ShortName} (same : first.spelled = second.spelled) :
    first.onDisk = second.onDisk := by
  have base := base_of_spelled first
  have extension := extension_of_spelled first
  rw [same, base_of_spelled] at base
  rw [same, extension_of_spelled] at extension
  rw [onDisk, onDisk, base, extension]

def NoLetters (name : ShortName) : Prop :=
  ∀ byte ∈ name.base ++ name.extension, ¬IsLetter byte

theorem noLetters_iff (name : ShortName) :
    name.NoLetters ↔ ∀ byte ∈ name.spelled, ¬IsLetter byte := by
  have dot : ¬IsLetter 46 := by
    unfold IsLetter
    decide
  rw [NoLetters, spelled]
  split_ifs with plain
  · simp [plain]
  · simp only [List.forall_mem_append, List.forall_mem_cons]
    simp [dot]

theorem noLetters_of_matched {name : ShortName} {entry : DirectoryEntry}
    (matched : name.MatchedIgnoringCase entry) : name.NoLetters := by
  have ascii : ∀ byte ∈ name.spelled.map swapCase, byte.toNat < 0x80 := by
    intro byte member
    obtain ⟨original, inName, rfl⟩ := List.mem_map.mp member
    have visible := (name.spelled_printable original inName).2
    exact swapCase_ascii (by omega)
  have text := utf8_asciiText ascii
  have characters : ∀ character ∈ asciiText (name.spelled.map swapCase),
      character.toNat < 0x80 := by
    intro character member
    obtain ⟨byte, inText, rfl⟩ := List.mem_map.mp member
    rw [toNat_ofUInt8]
    exact ascii byte inText
  have swapped := (matched.spelling _ characters).mpr (by
    rw [text, List.map_map]
    exact List.map_congr_left fun byte _ => lower_swapCase byte)
  rw [compareShortName_iff, text] at swapped
  rw [noLetters_iff]
  intro byte member letter
  apply swapCase_ne_of_letter letter
  have same : name.spelled.map swapCase = name.spelled.map id := by
    rw [swapped, List.map_id]
  exact List.map_inj_left.mp same byte member

theorem matched_of_noLetters {name : ShortName} (noLetters : name.NoLetters)
    (entry : DirectoryEntry) : name.MatchedIgnoringCase entry where
  spelling := by
    intro text _
    rw [compareShortName_iff]
    constructor
    · intro same
      rw [same]
    · exact eq_of_map_lower_eq (name.noLetters_iff.mp noLetters)
  unique := by
    intro other text first second
    rw [compareShortName_iff] at first second
    rw [SameIgnoringCase, onDisk_of_spelled (first.symm.trans second)]

/-- A short name is matched in every case exactly when case makes no difference to
it. -/
theorem matchedIgnoringCase_iff_noLetters (name : ShortName) (entry : DirectoryEntry) :
    name.MatchedIgnoringCase entry ↔ name.NoLetters := by
  constructor
  · exact noLetters_of_matched
  · intro noLetters
    exact matched_of_noLetters noLetters entry

def bootLoader : ShortName where
  base := [66, 79, 79, 84, 88, 54, 52]
  extension := [69, 70, 73]
  named := by decide
  baseFits := by decide
  extensionFits := by decide
  printable := by simp
  noDot := by simp

/-- The boot loader is not found by its name in lower case. -/
theorem bootLoader_lower_case :
    (EfiStr.utf8 ['b', 'o', 'o', 't', 'x', '6', '4', '.', 'e', 'f', 'i']).map lower =
        bootLoader.spelled.map lower ∧
      compareShortName ['b', 'o', 'o', 't', 'x', '6', '4', '.', 'e', 'f', 'i']
        { Volume.rootEntry 0 with name := getShortName bootLoader.onDisk } = false := by
  decide

end ShortName

end HypervisorFirmware.Fat
