import Mathlib.Data.List.GetD
import HypervisorFirmware.EfiStr.Decoding
import HypervisorFirmware.Fat.Read
import HypervisorFirmware.Fat.ShortNames
import HypervisorFirmware.Fat.WholeFile
import HypervisorFirmware.Foundation.Text

/-! # Boot entries

`loader.rs` reads a configuration file into a buffer of 4096 bytes and takes the lines of
the whole buffer. The value of a key is copied to the start of its field, whatever an
earlier line has left there. -/

namespace HypervisorFirmware.Loader

open Fat (Read Sector asciiText)
open EfiStr (utf8)
open Text (lines trim trimMatches withoutReturn)

/-! ## The source -/

structure LoaderConfig where
  bzimagePath : List UInt8
  initrdPath : List UInt8
  cmdline : List UInt8
  deriving DecidableEq, Repr

def fromUtf8Unchecked (bytes : List UInt8) : Exec (List Char) :=
  match bytes.toByteArray.utf8Decode? with
  | some text => .ok text.toList
  | none => .error .undefined

section Read

variable {State : Type}

abbrev ReadState (State : Type) := Nat × List UInt8 × State

/-- One iteration of the loop that reads the file. The part of the buffer for the next
sector is taken before the end of the file is known. -/
def readBody (file : Read State) :
    ReadState State → Exec (ReadState State ⊕ (Except Fat.Error (List UInt8) × State))
  | (offset, data, state) =>
    if offset + 512 ≤ data.length then do
      match ← file.read state with
      | (.error .endOfFile, state) => return .inr (.ok data, state)
      | (.error error, state) => return .inr (.error error, state)
      | (.ok (_, sector), state) =>
        return .inl
          (offset + 512, data.take offset ++ sector.toList ++ data.drop (offset + 512), state)
    else .error .panicked

/-- Both functions read the file into a buffer in the same way. Every iteration takes 512
bytes of it. -/
def readConf (file : Read State) (state : State) :
    Exec (Except Fat.Error (List UInt8) × State) := do
  let data := List.replicate 4096 0
  if file.size.toNat ≤ data.length then Loop.run (readBody file) 9 (0, data, state)
  else .error .panicked

def overlay (field bytes : List UInt8) : List UInt8 := bytes ++ field.drop bytes.length

def copyFromSlice (field : List UInt8) (entry : List Char) : Exec (List UInt8) :=
  if (utf8 entry).length ≤ field.length then .ok (overlay field (utf8 entry))
  else .error .panicked

def takeLine (key : List Char) (field : List UInt8) (line : List Char) : Exec (List UInt8) :=
  if key <+: line then copyFromSlice field (trim (line.drop key.length)) else .ok field

def defaultKey : List Char := ['d', 'e', 'f', 'a', 'u', 'l', 't']

def linuxKey : List Char := ['l', 'i', 'n', 'u', 'x']

def optionsKey : List Char := ['o', 'p', 't', 'i', 'o', 'n', 's']

def initrdKey : List Char := ['i', 'n', 'i', 't', 'r', 'd']

def defaultEntryFile (f : Read State) (state : State) :
    Exec (Except Fat.Error (List UInt8) × State) := do
  match ← readConf f state with
  | (.error error, state) => return (.error error, state)
  | (.ok data, state) =>
    let conf ← fromUtf8Unchecked data
    let entryFileName ← (lines conf).foldlM (takeLine defaultKey) (List.replicate 260 0)
    return (.ok entryFileName, state)

def takeEntryLine (config : LoaderConfig) (line : List Char) : Exec LoaderConfig := do
  let bzimagePath ← takeLine linuxKey config.bzimagePath line
  let cmdline ← takeLine optionsKey config.cmdline line
  let initrdPath ← takeLine initrdKey config.initrdPath line
  return ⟨bzimagePath, initrdPath, cmdline⟩

def zeroedConfig : LoaderConfig where
  bzimagePath := List.replicate 260 0
  initrdPath := List.replicate 260 0
  cmdline := List.replicate 4096 0

def parseEntry (f : Read State) (state : State) :
    Exec (Except Fat.Error LoaderConfig × State) := do
  match ← readConf f state with
  | (.error error, state) => return (.error error, state)
  | (.ok data, state) =>
    let conf ← fromUtf8Unchecked data
    let loaderConfig ← (lines conf).foldlM takeEntryLine zeroedConfig
    return (.ok loaderConfig, state)

end Read

def asciiStrip (s : List UInt8) : Exec (List Char) := do
  return trimMatches (· == '\x00') (← fromUtf8Unchecked s)

/-! ## Exact parsing -/

def lineValues (key : List Char) (lines : List (List Char)) : List (List Char) :=
  (lines.filter (key <+: ·)).map fun line => trim (line.drop key.length)

def values (key text : List Char) : List (List Char) := lineValues key (lines text)

def lastValue (key text : List Char) : List Char := (values key text).getLast?.getD []

section File

variable (fs : Fat.Filesystem) (content : UInt64 → Sector) (start size : UInt32)

def openedFile : Read (Fat.File × Unit) := Fat.File.asRead fs (.reliable content) size

def fileText : List Char := asciiText (fs.fileBytes content start 0 size.toNat)

/-- Both functions return, and every field is the value of the last line with its key. -/
structure ParsesExactly : Prop where
  defaultEntry : ∃ name final,
    defaultEntryFile (openedFile fs content size) (Fat.getFile start size, ()) =
      .ok (.ok name, final) ∧
    asciiStrip name = .ok (lastValue defaultKey (fileText fs content start size))
  entry : ∃ config final,
    parseEntry (openedFile fs content size) (Fat.getFile start size, ()) =
      .ok (.ok config, final) ∧
    asciiStrip config.bzimagePath = .ok (lastValue linuxKey (fileText fs content start size)) ∧
    asciiStrip config.initrdPath = .ok (lastValue initrdKey (fileText fs content start size)) ∧
    asciiStrip config.cmdline = .ok (lastValue optionsKey (fileText fs content start size))

end File

/-! ## Values that show -/

/-- The byte at a place of a field: that of the last value that reaches so far. -/
def visibleByte (written : List (List UInt8)) (place : Nat) : UInt8 :=
  (written.filterMap (·[place]?)).getLast?.getD 0

/-- All values fit into a field of this size, and together they show this value, with zeros
around it. -/
structure Shows (capacity : Nat) (entries : List (List Char)) (value : List Char) : Prop where
  fit : ∀ entry ∈ entries, (utf8 entry).length ≤ capacity
  first : value.head? ≠ some '\x00'
  last : value.getLast? ≠ some '\x00'
  shown : ∃ lead, lead + (utf8 value).length ≤ capacity ∧
    ∀ place < capacity, visibleByte (entries.map utf8) place =
      (List.replicate lead 0 ++ utf8 value).getD place 0

def fields : List (List Char × Nat) :=
  [(defaultKey, 260), (linuxKey, 260), (initrdKey, 260), (optionsKey, 4096)]

def behindText (fs : Fat.Filesystem) (content : UInt64 → Sector) (start size : UInt32) :
    List UInt8 :=
  fs.fileBytes content start size.toNat (512 * ((size.toNat + 511) / 512) - size.toNat) ++
    List.replicate (4096 - 512 * ((size.toNat + 511) / 512)) 0

/-! ## Reading -/

section Reading

variable {fs : Fat.Filesystem} {content : UInt64 → Sector} {start size : UInt32}

structure Loaded (fs : Fat.Filesystem) (content : UInt64 → Sector) (start size : UInt32)
    (sectors : Nat) (reached : ReadState (Fat.File × Unit)) : Prop where
  few : 512 * sectors < size.toNat + 512
  offset : reached.1 = 512 * sectors
  data : reached.2.1 = fs.fileBytes content start 0 (512 * sectors) ++
    List.replicate (4096 - 512 * sectors) 0
  coherent : reached.2.2.1.Coherent fs content start size
  position : reached.2.2.1.position.toNat = min (512 * sectors) size.toNat

section

variable {sectors : Nat} {reached : ReadState (Fat.File × Unit)}
  (loaded : Loaded fs content start size sectors reached)

include loaded

theorem Loaded.text (all : size.toNat ≤ 512 * sectors) :
    reached.2.1 = fs.fileBytes content start 0 size.toNat ++ behindText fs content start size := by
  have few := loaded.few
  have number : (size.toNat + 511) / 512 = sectors := by omega
  have joined : fs.fileBytes content start 0 size.toNat ++
      fs.fileBytes content start (0 + size.toNat) (512 * sectors - size.toNat) = _ :=
    Fat.Filesystem.fileBytes_append 0 size.toNat (512 * sectors - size.toNat)
  rw [Nat.zero_add, Nat.add_sub_cancel' all] at joined
  rw [loaded.data, behindText, number, ← List.append_assoc, joined]

theorem Loaded.next (before : 512 * sectors < size.toNat) {count : UInt32} {sector : Sector}
    {next : Fat.File} (coherent : next.Coherent fs content start size)
    (delivered : reached.2.2.1.Delivers fs content start size count sector next) :
    Loaded fs content start size (sectors + 1)
      (reached.1 + 512,
        reached.2.1.take reached.1 ++ sector.toList ++ reached.2.1.drop (reached.1 + 512),
        next, ()) where
  few := by omega
  offset := by
    rw [loaded.offset]
    rfl
  data := by
    have found := delivered.sector
    rw [loaded.position, Nat.min_eq_left (Nat.le_of_lt before),
      Nat.mul_div_cancel_left _ (by decide)] at found
    have bytes := Fat.Filesystem.take_fileSector found (Nat.le_refl 512)
    rw [List.take_of_length_le (by simp)] at bytes
    have joined : fs.fileBytes content start 0 (512 * sectors) ++
        fs.fileBytes content start (0 + 512 * sectors) 512 = _ :=
      Fat.Filesystem.fileBytes_append 0 (512 * sectors) 512
    rw [Nat.zero_add] at joined
    have length : (fs.fileBytes content start 0 (512 * sectors)).length = 512 * sectors :=
      Fat.Filesystem.length_fileBytes _ _
    rw [loaded.data, loaded.offset, List.take_left' length, bytes, joined, List.drop_append,
      List.drop_eq_nil_of_le (by omega), length, Nat.add_sub_cancel_left, List.nil_append,
      List.drop_replicate, Nat.sub_sub]
    rfl
  coherent := coherent
  position := by
    have position := loaded.position
    have counted := delivered.counted
    have moved := delivered.moved
    change next.position.toNat = _
    omega

end

def ReadsText (fs : Fat.Filesystem) (content : UInt64 → Sector) (start size : UInt32)
    (outcome : Exec (Except Fat.Error (List UInt8) × Fat.File × Unit)) : Prop :=
  (size.toNat ≤ 3584 ∧ ∃ final, outcome = .ok
    (.ok (fs.fileBytes content start 0 size.toNat ++ behindText fs content start size), final)) ∨
  (3584 < size.toNat ∧ outcome = .error .panicked)

theorem readConf_readsText (long : fs.LongEnough content start size)
    (small : size.toNat ≤ 4096) : ReadsText fs content start size
      (readConf (openedFile fs content size) (Fat.getFile start size, ())) := by
  have checked : size.toNat ≤ (List.replicate 4096 (0 : UInt8)).length :=
    small.trans_eq List.length_replicate.symm
  rw [readConf, show (openedFile fs content size).size = size from rfl, if_pos checked]
  apply Loop.run_of_measure (fun reached => ∃ sectors, Loaded fs content start size sectors reached)
    (fun reached => (4096 - reached.1) / 512) (ReadsText fs content start size)
  · rintro ⟨offset, data, file, ⟨⟩⟩ ⟨sectors, loaded⟩
    have few := loaded.few
    have position : file.position.toNat = min (512 * sectors) size.toNat := loaded.position
    have here : offset = 512 * sectors := loaded.offset
    have length : data.length = 4096 := by
      have bytes := loaded.data
      dsimp only at bytes
      rw [bytes, List.length_append, List.length_replicate, Fat.Filesystem.length_fileBytes]
      omega
    have reads : (openedFile fs content size).read (file, ()) =
      file.read fs (.reliable content) () := rfl
    rw [readBody, length, reads]
    cases Nat.lt_or_ge 4096 (offset + 512) with
    | inl full =>
      rw [if_neg (Nat.not_le.mpr full)]
      exact Or.inr ⟨by omega, rfl⟩
    | inr room =>
      rw [if_pos room]
      by_cases before : 512 * sectors < size.toNat
      · rcases Fat.File.read_reliable long.positive long.readable loaded.coherent
          (show file.position.toNat < size.toNat by omega) with ⟨count, sector, next, outcome⟩
        have read := Fat.File.Coherent.read long.positive (by omega)
          (show file.Coherent fs (Fat.SectorDevice.reliable content).content start size
            from loaded.coherent) outcome
        rw [outcome]
        refine ⟨⟨_, loaded.next before read.1 (read.2 count sector rfl)⟩, ?_⟩
        dsimp only
        omega
      · have ended : file.position = size := UInt32.toNat_inj.mp (by omega)
        rw [loaded.coherent.read_atEnd ended]
        have text := loaded.text (Nat.not_lt.mp before)
        dsimp only at text
        refine Or.inl ⟨by omega, (file, ()), ?_⟩
        rw [← text]
  · refine ⟨0, by omega, rfl, ?_, Fat.File.getFile_coherent content start size, ?_⟩
    · rw [Nat.mul_zero, Fat.Filesystem.fileBytes_zero, List.nil_append, Nat.sub_zero]
    · change 0 = _
      omega
  · change 4096 / 512 < 9
    decide

end Reading

/-! ## Decoding -/

theorem fromUtf8Unchecked_eq_ok {bytes : List UInt8} {text : List Char} :
    fromUtf8Unchecked bytes = .ok text ↔ bytes = utf8 text := by
  have decodes (text : List Char) : fromUtf8Unchecked (utf8 text) = .ok text := by
    have decoded : (utf8 text).toByteArray.utf8Decode? = some text.toArray :=
      List.utf8Decode?_utf8Encode
    rw [fromUtf8Unchecked, decoded]
  constructor
  · intro returned
    have valid : bytes.toByteArray.IsValidUTF8 := by
      rw [← ByteArray.isSome_utf8Decode?_iff]
      cases decoded : bytes.toByteArray.utf8Decode? with
      | none => simp [fromUtf8Unchecked, decoded] at returned
      | some text => rfl
    rcases valid with ⟨other, same⟩
    have here : bytes = utf8 other := List.toByteArray_inj.mp same
    rw [here, decodes, Except.ok.injEq] at returned
    rw [here, returned]
  · rintro rfl
    exact decodes text

variable {behind field : List UInt8} {config : LoaderConfig}

theorem rest_of_text {text whole : List Char}
    (plain : ∀ character ∈ text, character.toNat < 0x10000)
    (same : utf8 text ++ behind = utf8 whole) : ∃ rest, utf8 rest = behind := by
  induction text generalizing whole with
  | nil => exact ⟨whole, same.symm⟩
  | cons character text induction =>
    rw [List.forall_mem_cons] at plain
    rw [EfiStr.utf8_cons, EfiStr.utf8EncodeChar_eq_unitBytes plain.1, List.append_assoc] at same
    rcases EfiStr.first_character same with ⟨_, less, _, _, rest⟩
    exact induction plain.2 rest

/-! ## Fields -/

theorem length_overlay {bytes : List UInt8} (fits : bytes.length ≤ field.length) :
    (overlay field bytes).length = field.length := by
  rw [overlay, List.length_append, List.length_drop]
  omega

theorem getD_overlay (field bytes : List UInt8) (place : Nat) :
    (overlay field bytes).getD place 0 = bytes[place]?.getD (field.getD place 0) := by
  rw [overlay]
  by_cases inside : place < bytes.length
  · simp only [List.getD, List.getElem?_append_left inside, List.getElem?_eq_getElem inside,
      Option.getD_some]
  · simp only [List.getD, List.getElem?_append_right (Nat.not_lt.mp inside), List.getElem?_drop,
      List.getElem?_eq_none (Nat.not_lt.mp inside), Option.getD_none]
    congr 2
    omega

theorem getD_foldl_overlay (written : List (List UInt8)) (field : List UInt8) (place : Nat) :
    (written.foldl overlay field).getD place 0 =
      (written.filterMap (·[place]?)).getLast?.getD (field.getD place 0) := by
  induction written generalizing field with
  | nil => rfl
  | cons bytes rest induction =>
    rw [List.foldl_cons, induction, getD_overlay, List.filterMap_cons]
    cases bytes[place]? with
    | none => rfl
    | some byte => simp [List.getLast?_cons]

theorem length_foldl_overlay {written : List (List UInt8)}
    (fit : ∀ bytes ∈ written, bytes.length ≤ field.length) :
    (written.foldl overlay field).length = field.length := by
  induction written generalizing field with
  | nil => rfl
  | cons bytes rest induction =>
    rw [List.forall_mem_cons] at fit
    have same := length_overlay fit.1
    rw [List.foldl_cons, induction (by rw [same]; exact fit.2), same]

theorem foldlM_takeLine (key : List Char) (list : List (List Char))
    {capacity : Nat} (size : field.length = capacity) :
    list.foldlM (takeLine key) field =
      if ∀ entry ∈ lineValues key list, (utf8 entry).length ≤ capacity then
        .ok (((lineValues key list).map utf8).foldl overlay field)
      else .error .panicked := by
  induction list generalizing field with
  | nil => simp [lineValues]
  | cons line rest induction =>
    rw [List.foldlM_cons, takeLine]
    by_cases key' : key <+: line
    · have values : lineValues key (line :: rest) =
          trim (line.drop key.length) :: lineValues key rest := by
        simp [lineValues, key']
      rw [if_pos key', copyFromSlice, size, values]
      by_cases fits : (utf8 (trim (line.drop key.length))).length ≤ capacity
      · rw [if_pos fits, Exec.ok_bind,
          induction ((length_overlay (by rw [size]; exact fits)).trans size)]
        simp [fits]
      · simp [fits]
    · have values : lineValues key (line :: rest) = lineValues key rest := by
        simp [lineValues, key']
      rw [if_neg key', Exec.ok_bind, induction size, values]

theorem eq_replicate_nul {text : List Char} (all : ∀ character ∈ text, character == '\x00') :
    text = List.replicate text.length '\x00' :=
  List.eq_replicate_of_mem fun character member => eq_of_beq (all character member)

theorem utf8_replicate_nul (count : Nat) :
    utf8 (List.replicate count '\x00') = List.replicate count 0 := by
  induction count with
  | zero => rfl
  | succ count induction =>
    rw [List.replicate_succ, EfiStr.utf8_cons, induction, List.replicate_succ]
    rfl

theorem asciiStrip_eq_ok {value : List Char} :
    asciiStrip field = .ok value ↔
      value.head? ≠ some '\x00' ∧ value.getLast? ≠ some '\x00' ∧
        ∃ lead trail, field = List.replicate lead 0 ++ utf8 value ++ List.replicate trail 0 := by
  have strips : asciiStrip field = .ok value ↔
      ∃ text, field = utf8 text ∧ trimMatches (· == '\x00') text = value := by
    rw [asciiStrip]
    cases decoded : fromUtf8Unchecked field with
    | error fault =>
      simp only [Exec.error_bind, reduceCtorEq, false_iff, not_exists, not_and]
      intro text same
      rw [fromUtf8Unchecked_eq_ok.mpr same] at decoded
      cases decoded
    | ok text =>
      have same := fromUtf8Unchecked_eq_ok.mp decoded
      simp only [Exec.ok_bind, Exec.pure_eq_ok, Except.ok.injEq]
      constructor
      · exact fun trimmed => ⟨text, same, trimmed⟩
      · rintro ⟨other, same', trimmed⟩
        rwa [EfiStr.utf8_injective (same.symm.trans same')]
  rw [strips]
  simp only [Text.trimMatches_eq_iff]
  constructor
  · rintro ⟨_, rfl, first, last, before, after, rfl, early, late⟩
    refine ⟨fun nul => first _ nul rfl, fun nul => last _ nul rfl, before.length, after.length, ?_⟩
    rw [EfiStr.utf8_append, EfiStr.utf8_append, eq_replicate_nul early, eq_replicate_nul late,
      utf8_replicate_nul, utf8_replicate_nul, List.length_replicate, List.length_replicate]
  · rintro ⟨first, last, lead, trail, rfl⟩
    refine ⟨List.replicate lead '\x00' ++ value ++ List.replicate trail '\x00', ?_, ?_, ?_,
      _, _, rfl, ?_, ?_⟩
    · rw [EfiStr.utf8_append, EfiStr.utf8_append, utf8_replicate_nul, utf8_replicate_nul]
    · intro character here nul
      exact first (eq_of_beq nul ▸ here)
    · intro character here nul
      exact last (eq_of_beq nul ▸ here)
    · simp
    · simp

theorem padded_iff {list start : List UInt8} : (∃ trail, list = start ++ List.replicate trail 0) ↔
      start.length ≤ list.length ∧
        ∀ place < list.length, list.getD place 0 = start.getD place 0 := by
  constructor
  · rintro ⟨trail, rfl⟩
    refine ⟨by simp, fun place inside => ?_⟩
    by_cases early : place < start.length
    · rw [List.getD_append _ _ _ _ early]
    · rw [List.getD_append_right _ _ _ _ (by omega), List.getD_eq_default _ _ (Nat.not_lt.mp early)]
      simp [List.getD]
  · rintro ⟨shorter, same⟩
    refine ⟨list.length - start.length, List.ext_getElem (by simp [shorter]) ?_⟩
    intro place inside inside'
    have here := same place inside
    rw [List.getD_eq_getElem _ _ inside] at here
    by_cases early : place < start.length
    · rw [here, List.getElem_append_left early, List.getD_eq_getElem _ _ early]
    · rw [here, List.getElem_append_right (Nat.not_lt.mp early), List.getElem_replicate,
        List.getD_eq_default _ _ (Nat.not_lt.mp early)]

theorem shows_iff (key : List Char) (list : List (List Char)) (capacity : Nat) (value : List Char) :
    (∃ field, list.foldlM (takeLine key) (List.replicate capacity 0) = .ok field ∧
      asciiStrip field = .ok value) ↔ Shows capacity (lineValues key list) value := by
  rw [foldlM_takeLine key list List.length_replicate]
  by_cases fit : ∀ entry ∈ lineValues key list, (utf8 entry).length ≤ capacity
  · have length : (((lineValues key list).map utf8).foldl overlay
        (List.replicate capacity 0)).length = capacity := by
      rw [length_foldl_overlay, List.length_replicate]
      simpa using fit
    have visible (place : Nat) : (((lineValues key list).map utf8).foldl overlay
        (List.replicate capacity 0)).getD place 0 =
          visibleByte ((lineValues key list).map utf8) place := by
      have zero : (List.replicate capacity (0 : UInt8)).getD place 0 = 0 := by
        rw [List.getD, List.getElem?_replicate]
        split <;> rfl
      rw [getD_foldl_overlay, zero, visibleByte]
    simp only [if_pos fit, Except.ok.injEq, exists_eq_left', asciiStrip_eq_ok, padded_iff, length,
      visible, List.length_append, List.length_replicate]
    constructor
    · rintro ⟨first, last, lead, inside, same⟩
      exact ⟨fit, first, last, lead, inside, same⟩
    · rintro ⟨_, first, last, lead, inside, same⟩
      exact ⟨first, last, lead, inside, same⟩
  · simp only [if_neg fit, reduceCtorEq, false_and, exists_false, false_iff]
    exact fun shows => fit shows.fit

/-! ## Both functions -/

theorem takeEntryLine_eq_ok {next : LoaderConfig} {line : List Char} :
    takeEntryLine config line = .ok next ↔
      takeLine linuxKey config.bzimagePath line = .ok next.bzimagePath ∧
      takeLine initrdKey config.initrdPath line = .ok next.initrdPath ∧
      takeLine optionsKey config.cmdline line = .ok next.cmdline := by
  rcases next with ⟨bzimagePath, initrdPath, cmdline⟩
  rw [takeEntryLine]
  cases takeLine linuxKey config.bzimagePath line <;>
    cases takeLine optionsKey config.cmdline line <;>
    cases takeLine initrdKey config.initrdPath line <;> simp

theorem foldlM_takeEntryLine {list : List (List Char)} {final : LoaderConfig} :
    list.foldlM takeEntryLine config = .ok final ↔
      list.foldlM (takeLine linuxKey) config.bzimagePath = .ok final.bzimagePath ∧
      list.foldlM (takeLine initrdKey) config.initrdPath = .ok final.initrdPath ∧
      list.foldlM (takeLine optionsKey) config.cmdline = .ok final.cmdline := by
  induction list generalizing config with
  | nil =>
    rcases config with ⟨_, _, _⟩
    rcases final with ⟨_, _, _⟩
    simp
  | cons line rest induction =>
    simp only [List.foldlM_cons, Exec.bind_eq_ok, takeEntryLine_eq_ok, induction]
    constructor
    · rintro ⟨next, ⟨linux, initrd, options⟩, linux', initrd', options'⟩
      exact ⟨⟨_, linux, linux'⟩, ⟨_, initrd, initrd'⟩, ⟨_, options, options'⟩⟩
    · rintro ⟨⟨_, linux, linux'⟩, ⟨_, initrd, initrd'⟩, ⟨_, options, options'⟩⟩
      exact ⟨⟨_, _, _⟩, ⟨linux, initrd, options⟩, linux', initrd', options'⟩

section Outcome

variable {State : Type} {file : Read State} {state after : State} {data : List UInt8}

theorem defaultEntryFile_iff (read : readConf file state = .ok (.ok data, after))
    (value : List Char) :
    (∃ name final, defaultEntryFile file state = .ok (.ok name, final) ∧
      asciiStrip name = .ok value) ↔
    ∃ conf, fromUtf8Unchecked data = .ok conf ∧ Shows 260 (values defaultKey conf) value := by
  simp only [defaultEntryFile, read, Exec.ok_bind, Exec.bind_eq_ok, Exec.pure_eq_ok,
    Except.ok.injEq, Prod.mk.injEq, values, ← shows_iff]
  constructor
  · rintro ⟨name, _, ⟨conf, decoded, name', folded, rfl, _⟩, strips⟩
    exact ⟨conf, decoded, name', folded, strips⟩
  · rintro ⟨conf, decoded, name, folded, strips⟩
    exact ⟨name, after, ⟨conf, decoded, name, folded, rfl, rfl⟩, strips⟩

theorem parseEntry_iff (read : readConf file state = .ok (.ok data, after))
    (linux initrd options : List Char) :
    (∃ config final, parseEntry file state = .ok (.ok config, final) ∧
      asciiStrip config.bzimagePath = .ok linux ∧ asciiStrip config.initrdPath = .ok initrd ∧
      asciiStrip config.cmdline = .ok options) ↔
    ∃ conf, fromUtf8Unchecked data = .ok conf ∧ Shows 260 (values linuxKey conf) linux ∧
      Shows 260 (values initrdKey conf) initrd ∧ Shows 4096 (values optionsKey conf) options := by
  simp only [parseEntry, read, Exec.ok_bind, Exec.bind_eq_ok, Exec.pure_eq_ok,
    Except.ok.injEq, Prod.mk.injEq, values, ← shows_iff, foldlM_takeEntryLine]
  constructor
  · rintro ⟨config, _, ⟨conf, decoded, config', folded, rfl, _⟩, strips⟩
    exact ⟨conf, decoded, ⟨_, folded.1, strips.1⟩, ⟨_, folded.2.1, strips.2.1⟩,
      ⟨_, folded.2.2, strips.2.2⟩⟩
  · rintro ⟨conf, decoded, ⟨_, linux, linux'⟩, ⟨_, initrd, initrd'⟩, ⟨_, options, options'⟩⟩
    exact ⟨⟨_, _, _⟩, after, ⟨conf, decoded, ⟨_, _, _⟩, ⟨linux, initrd, options⟩, rfl, rfl⟩,
      linux', initrd', options'⟩

end Outcome

theorem buffer_eq_ok {bytes : List UInt8} (ascii : ∀ byte ∈ bytes, byte.toNat < 128)
    {conf : List Char} :
    fromUtf8Unchecked (bytes ++ behind) = .ok conf ↔
      ∃ rest, utf8 rest = behind ∧ asciiText bytes ++ rest = conf := by
  have same := Fat.utf8_asciiText ascii
  have plain : ∀ character ∈ asciiText bytes, character.toNat < 0x10000 := by
    intro character member
    rcases List.mem_map.mp member with ⟨byte, _, rfl⟩
    have small := byte.toNat_lt
    rw [Fat.toNat_ofUInt8]
    omega
  rw [fromUtf8Unchecked_eq_ok]
  constructor
  · intro whole
    rcases rest_of_text plain ((congrArg (· ++ behind) same).trans whole) with ⟨rest, here⟩
    refine ⟨rest, here, EfiStr.utf8_injective ?_⟩
    rw [EfiStr.utf8_append, same, here, whole]
  · rintro ⟨rest, rfl, rfl⟩
    rw [EfiStr.utf8_append, same]

/-- The functions parse a file exactly if a sector fits behind it into the buffer, the buffer
is a text, and for every key the lines of the whole buffer show the value of the last line of
the file. -/
theorem parsesExactly_iff_shows (fs : Fat.Filesystem) (content : UInt64 → Sector)
    (start size : UInt32) (long : fs.LongEnough content start size) (small : size.toNat ≤ 4096)
    (ascii : ∀ byte ∈ fs.fileBytes content start 0 size.toNat, byte.toNat < 128) :
    ParsesExactly fs content start size ↔
      size.toNat ≤ 3584 ∧ ∃ rest, utf8 rest = behindText fs content start size ∧
        ∀ field ∈ fields, Shows field.2 (values field.1 (fileText fs content start size ++ rest))
          (lastValue field.1 (fileText fs content start size)) := by
  rcases readConf_readsText long small with ⟨few, after, read⟩ | ⟨many, read⟩
  · have parses : ParsesExactly fs content start size ↔ _ ∧ _ :=
      ⟨fun exact => ⟨exact.defaultEntry, exact.entry⟩, fun both => ⟨both.1, both.2⟩⟩
    rw [parses, defaultEntryFile_iff read, parseEntry_iff read]
    simp only [buffer_eq_ok ascii, fileText, few, true_and, fields, List.forall_mem_cons,
      List.not_mem_nil, false_implies, implies_true, and_true]
    constructor
    · rintro ⟨⟨_, ⟨rest, behind, rfl⟩, default⟩, _, ⟨rest', behind', rfl⟩, entry⟩
      obtain rfl := EfiStr.utf8_injective (behind'.trans behind.symm)
      exact ⟨_, behind, default, entry⟩
    · rintro ⟨rest, behind, default, entry⟩
      exact ⟨⟨_, ⟨rest, behind, rfl⟩, default⟩, _, ⟨rest, behind, rfl⟩, entry⟩
  · constructor
    · rintro ⟨⟨name, final, returned, _⟩, _⟩
      rw [defaultEntryFile, read] at returned
      cases returned
    · rintro ⟨few, _⟩
      omega

/-! ## Two files -/

def sectors (bytes : List UInt8) (_ : UInt64) : Sector := .ofBytes bytes

theorem fileSector_sectors (bytes : List UInt8) {index : Nat} (small : index < 128) :
    Fat.LongFile.volume.fileSector (sectors bytes) 2 index = some (sectors bytes 0) := by
  have located := Fat.LongFile.sector_eq index (by omega)
  have perCluster : Fat.LongFile.volume.sectorsPerCluster.toNat = 128 := rfl
  rw [Nat.div_eq_of_lt small] at located
  rw [Fat.Filesystem.fileSector, perCluster, Nat.div_eq_of_lt small]
  have inVolume : ¬ 0 +
      ((Fat.LongFile.volume.firstSectorOfCluster (UInt32.ofNat (0 + 2))).toUInt64 +
        UInt64.ofNat (index % 128)) > 0xffffffff := by
    rw [gt_iff_lt, UInt64.lt_iff_toNat_lt, UInt64.zero_add, located]
    simp only [UInt64.reduceToNat]
    omega
  exact congrArg Prod.fst (if_neg inVolume)

theorem sectors_longEnough (bytes : List UInt8) {size : UInt32} (small : size.toNat ≤ 4096) :
    Fat.LongFile.volume.LongEnough (sectors bytes) 2 size where
  positive := by decide
  readable := fun index inside => ⟨_, fileSector_sectors bytes (by omega)⟩

theorem fileBytes_sectors (bytes : List UInt8) {first count : Nat} (small : first + count ≤ 4096) :
    Fat.LongFile.volume.fileBytes (sectors bytes) 2 first count =
      (List.range' first count).map fun index => bytes.getD (index % 512) 0 := by
  apply List.map_congr_left
  intro index member
  have inside := List.mem_range'_1.mp member
  have place : index % 512 < 512 := Nat.mod_lt _ (by decide)
  rw [Fat.Filesystem.byteAt, fileSector_sectors bytes (by omega)]
  simp [sectors, List.getD_eq_getElem?_getD, place, Sector.getElem_ofBytes]

theorem values_padded {key : List Char} (keyed : ∃ first ∈ key.head?, first ≠ '\x00')
    (text : List Char) {count : Nat} (some : 0 < count) :
    values key (text ++ '\n' :: List.replicate count '\x00') = values key (text ++ ['\n']) := by
  obtain ⟨count, rfl⟩ := Nat.exists_eq_add_of_le' some
  have line : withoutReturn (List.replicate (count + 1) '\x00') =
      List.replicate (count + 1) '\x00' := by
    rw [withoutReturn, List.getLast?_replicate]
    simp
  have other : ¬key <+: List.replicate (count + 1) '\x00' := by
    rcases keyed with ⟨first, here, visible⟩
    rcases key with _ | ⟨head, key⟩
    · cases here
    · cases here
      intro starts
      exact visible (List.eq_of_mem_replicate (starts.subset List.mem_cons_self))
  rw [values, values, Text.lines_append text _ (by simp) (by simp), line, lineValues,
    List.filter_append]
  simp [lineValues, other]

theorem shows_single {capacity : Nat} {value : List Char}
    (fits : (utf8 value).length ≤ capacity) (first : value.head? ≠ some '\x00')
    (last : value.getLast? ≠ some '\x00') : Shows capacity [value] value where
  fit := by simpa using fits
  first := first
  last := last
  shown := by
    refine ⟨0, by simpa using fits, fun place _ => ?_⟩
    cases here : (utf8 value)[place]? <;> simp [visibleByte, here]

theorem shows_none (capacity : Nat) : Shows capacity [] [] where
  fit := by simp
  first := by simp
  last := by simp
  shown := ⟨0, by simp [utf8], fun place _ => by simp [visibleByte, utf8]⟩

def defaultLine : List Char := ['d', 'e', 'f', 'a', 'u', 'l', 't', ' ', 'a']

theorem parsesExactly_iff_shows_defaultLine :
    ParsesExactly Fat.LongFile.volume (sectors (utf8 (defaultLine ++ ['\n']))) 2 10 := by
  have text : Fat.LongFile.volume.fileBytes (sectors (utf8 (defaultLine ++ ['\n']))) 2 0
      (10 : UInt32).toNat = utf8 (defaultLine ++ ['\n']) := by
    rw [fileBytes_sectors _ (by decide)]
    decide
  have decoded : fileText Fat.LongFile.volume (sectors (utf8 (defaultLine ++ ['\n']))) 2 10 =
      defaultLine ++ ['\n'] := by
    rw [fileText, text]
    decide
  have behind : behindText Fat.LongFile.volume (sectors (utf8 (defaultLine ++ ['\n']))) 2 10 =
      List.replicate 4086 0 := by
    change Fat.LongFile.volume.fileBytes _ 2 10 502 ++ List.replicate 3584 0 = _
    rw [fileBytes_sectors _ (by decide), List.eq_replicate_iff]
    refine ⟨?_, fun byte member => ?_⟩
    · rw [List.length_append, List.length_map, List.length_range', List.length_replicate]
    rcases List.mem_append.mp member with slack | unread
    · rcases List.mem_map.mp slack with ⟨index, inside, rfl⟩
      rw [List.mem_range'_1] at inside
      rw [Nat.mod_eq_of_lt inside.2]
      exact List.getD_eq_default _ _ inside.1
    · exact List.eq_of_mem_replicate unread
  apply (parsesExactly_iff_shows _ _ 2 10 (sectors_longEnough _ (by decide)) (by decide) ?_).mpr
  · refine ⟨by decide, List.replicate 4086 '\x00', ?_, ?_⟩
    · rw [behind, utf8_replicate_nul]
    · rw [decoded, List.append_assoc, List.singleton_append]
      have none {key : List Char} (keyed : ∃ first ∈ key.head?, first ≠ '\x00')
          (other : values key (defaultLine ++ ['\n']) = []) (capacity : Nat) :
          Shows capacity (values key (defaultLine ++ '\n' :: List.replicate 4086 '\x00'))
            (lastValue key (defaultLine ++ ['\n'])) := by
        rw [values_padded keyed defaultLine (by decide), lastValue, other]
        exact shows_none capacity
      have one : values defaultKey (defaultLine ++ ['\n']) = [['a']] := by decide
      simp only [fields, List.forall_mem_cons, List.not_mem_nil, false_implies, implies_true,
        and_true]
      refine ⟨?_, none ⟨'l', by decide, by decide⟩ (by decide) 260,
        none ⟨'i', by decide, by decide⟩ (by decide) 260,
        none ⟨'o', by decide, by decide⟩ (by decide) 4096⟩
      rw [values_padded ⟨'d', by decide, by decide⟩ defaultLine (by decide), lastValue, one]
      exact shows_single (by decide) (by decide) (by decide)
  · rw [text]
    decide +kernel

/-- A file of 4096 number signs, one comment, makes both functions panic. -/
theorem not_parsesExactly_fullBuffer :
    (∀ byte ∈ Fat.LongFile.volume.fileBytes (sectors (List.replicate 512 0x23)) 2 0 4096,
      byte.toNat < 128) ∧
    ¬ParsesExactly Fat.LongFile.volume (sectors (List.replicate 512 0x23)) 2 4096 := by
  constructor
  · rw [fileBytes_sectors _ (Nat.le_refl 4096)]
    intro byte member
    rcases List.mem_map.mp member with ⟨index, _, rfl⟩
    rw [List.getD_replicate _ (Nat.mod_lt _ (by decide))]
    decide
  · rintro ⟨⟨name, final, returned, _⟩, _⟩
    rcases readConf_readsText (sectors_longEnough (List.replicate 512 0x23)
      (show (4096 : UInt32).toNat ≤ 4096 by decide)) (by decide) with ⟨few, _⟩ | ⟨_, read⟩
    · exact absurd few (by decide)
    · rw [defaultEntryFile, read] at returned
      cases returned

end HypervisorFirmware.Loader
