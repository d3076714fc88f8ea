import HypervisorFirmware.EfiStr.Encoder

/-! # Decoding into a buffer

What `decode` leaves in a buffer of any length for units of any kind, and when the
first bytes of it are UTF-8. -/

namespace HypervisorFirmware.EfiStr

def TwoByteUnit (ch : UInt16) : Prop := 0x80 ≤ ch.toNat ∧ ch.toNat ≤ 0x7ff

instance (ch : UInt16) : Decidable (TwoByteUnit ch) := inferInstanceAs (Decidable (_ ∧ _))

def Surrogate (ch : UInt16) : Prop := 0xd800 ≤ ch.toNat ∧ ch.toNat ≤ 0xdfff

instance (ch : UInt16) : Decidable (Surrogate ch) := inferInstanceAs (Decidable (_ ∧ _))

def output (input : List UInt16) : List UInt8 := input.flatMap unitBytes

/-- The bytes of a unit that `decode` counts. It does not move behind a unit of two
bytes. -/
def keptBytes (ch : UInt16) : List UInt8 := if TwoByteUnit ch then [] else unitBytes ch

def kept (input : List UInt16) : List UInt8 := input.flatMap keptBytes

def ValidUtf8 (bytes : List UInt8) : Prop := ∃ text : List Char, bytes = utf8 text

/-! ## Indexing -/

def store (buffer : List UInt8) (index : Nat) (value : UInt8) : Exec (List UInt8) :=
  if index < buffer.length then .ok (buffer.set index value) else .error .panicked

def decodeFromChecked : List UInt16 → Nat → List UInt8 → Exec (Except Error Nat × List UInt8)
  | [], index, buffer => .ok (.ok index, buffer)
  | ch :: rest, index, buffer =>
    if ch ≤ 0x007f then
      if index + 1 > buffer.length then .ok (.error .bufferOverFlow, buffer)
      else do
        let buffer ← store buffer index ch.toUInt8
        decodeFromChecked rest (index + 1) buffer
    else if ch ≤ 0x07ff then
      if index + 2 > buffer.length then .ok (.error .bufferOverFlow, buffer)
      else do
        let ch0_6 := ((ch <<< 10) >>> 10).toUInt8
        let ch6_12 := ((ch <<< 5) >>> 11).toUInt8
        let buffer ← store buffer index (0b11000000 + ch6_12)
        let buffer ← store buffer (index + 1) (0b10000000 + ch0_6)
        decodeFromChecked rest index buffer
    else
      if index + 3 > buffer.length then .ok (.error .bufferOverFlow, buffer)
      else do
        let ch0_6 := ((ch <<< 10) >>> 10).toUInt8
        let ch6_12 := ((ch <<< 4) >>> 10).toUInt8
        let ch12_16 := ((ch <<< 0) >>> 12).toUInt8
        let buffer ← store buffer index (0b11100000 + ch12_16)
        let buffer ← store buffer (index + 1) (0b10000000 + ch6_12)
        let buffer ← store buffer (index + 2) (0b10000000 + ch0_6)
        decodeFromChecked rest (index + 3) buffer

theorem store_eq {buffer : List UInt8} {index : Nat} (inside : index < buffer.length)
    (value : UInt8) : store buffer index value = .ok (buffer.set index value) := if_pos inside

theorem decodeFromChecked_eq (input : List UInt16) (index : Nat) (buffer : List UInt8) :
    decodeFromChecked input index buffer = .ok (decodeFrom input index buffer) := by
  induction input generalizing index buffer with
  | nil => rfl
  | cons ch rest induction =>
    unfold decodeFromChecked decodeFrom
    split_ifs with one full two full full
    · rfl
    · rw [store_eq (by omega), Exec.ok_bind, induction]
    · rfl
    · simp only
      rw [store_eq (by omega), Exec.ok_bind, store_eq (by rw [List.length_set]; omega),
        Exec.ok_bind, induction]
    · rfl
    · simp only
      rw [store_eq (by omega), Exec.ok_bind, store_eq (by rw [List.length_set]; omega),
        Exec.ok_bind, store_eq (by rw [List.length_set, List.length_set]; omega),
        Exec.ok_bind, induction]

/-! ## The bytes that are kept -/

/-- Some unit does not fit behind the bytes that are kept of those before it. -/
def Overflows (input : List UInt16) (room : Nat) : Prop :=
  ∃ before ch after, input = before ++ ch :: after ∧
    room < (kept before).length + (unitBytes ch).length

theorem kept_cons (ch : UInt16) (rest : List UInt16) :
    kept (ch :: rest) = keptBytes ch ++ kept rest := rfl

theorem length_keptBytes_le (ch : UInt16) : (keptBytes ch).length ≤ (unitBytes ch).length := by
  unfold keptBytes
  split_ifs
  · exact Nat.zero_le _
  · exact Nat.le_refl _

variable {ch : UInt16} {input : List UInt16} {character : Char}

theorem overflows_of_wide {room : Nat} (wide : room < (unitBytes ch).length)
    (rest : List UInt16) : Overflows (ch :: rest) room :=
  ⟨[], ch, rest, rfl, by simpa [kept] using wide⟩

theorem overflows_cons {room : Nat} (fits : (unitBytes ch).length ≤ room) (rest : List UInt16) :
    Overflows (ch :: rest) room ↔ Overflows rest (room - (keptBytes ch).length) := by
  have narrow := length_keptBytes_le ch
  constructor
  · rintro ⟨before, other, after, split, wide⟩
    cases before with
    | nil =>
      cases split
      simp only [kept, List.flatMap_nil, List.length_nil] at wide
      omega
    | cons head before =>
      cases split
      rw [kept_cons, List.length_append] at wide
      exact ⟨before, other, after, rfl, by omega⟩
  · rintro ⟨before, other, after, rfl, wide⟩
    refine ⟨ch :: before, other, after, rfl, ?_⟩
    rw [kept_cons, List.length_append]
    omega

theorem length_kept_le_room {room : Nat} (fits : ¬Overflows input room) :
    (kept input).length ≤ room := by
  induction input generalizing room with
  | nil => exact Nat.zero_le _
  | cons ch rest induction =>
    have here : (unitBytes ch).length ≤ room :=
      Nat.le_of_not_lt fun wide => fits (overflows_of_wide wide rest)
    rw [overflows_cons here] at fits
    have others := induction fits
    have narrow := length_keptBytes_le ch
    rw [kept_cons, List.length_append]
    omega

theorem decodeFrom_two (two : TwoByteUnit ch) (rest : List UInt16)
    (done spare : List UInt8) (room : 2 ≤ spare.length) :
    ∃ left, left.length = spare.length ∧
      decodeFrom (ch :: rest) done.length (done ++ spare) =
        decodeFrom rest done.length (done ++ left) := by
  obtain ⟨first, second, spare, rfl⟩ : ∃ first second less, spare = first :: second :: less := by
    match spare, room with
    | first :: second :: less, _ => exact ⟨first, second, less, rfl⟩
  have notOne : ¬ch ≤ 0x007f := by
    rw [UInt16.le_iff_toNat_le]
    simp only [UInt16.reduceToNat]
    have large := two.1
    omega
  refine ⟨((0b11000000 : UInt8) + ((ch <<< 5) >>> 11).toUInt8) ::
    ((0b10000000 : UInt8) + ((ch <<< 10) >>> 10).toUInt8) :: spare, rfl, ?_⟩
  rw [decodeFrom, if_neg notOne, if_pos (UInt16.le_iff_toNat_le.mpr two.2), if_neg (by simp)]
  simp only
  rw [List.set_append_right _ _ (Nat.le_refl _), List.set_append_right _ _ (by omega)]
  simp

theorem decodeFrom_full {index : Nat} {buffer : List UInt8}
    (full : buffer.length < index + (unitBytes ch).length) (rest : List UInt16) :
    decodeFrom (ch :: rest) index buffer = (.error .bufferOverFlow, buffer) := by
  have one : ch ≤ 0x007f ↔ ch.toNat ≤ 0x7f := UInt16.le_iff_toNat_le
  have two : ch ≤ 0x07ff ↔ ch.toNat ≤ 0x7ff := UInt16.le_iff_toNat_le
  unfold unitBytes at full
  rw [decodeFrom]
  split_ifs at full with small medium
  · rw [if_pos (one.mpr small)]
    exact if_pos full
  · rw [if_neg (fun less => small (one.mp less)), if_pos (two.mpr medium)]
    exact if_pos full
  · rw [if_neg (fun less => small (one.mp less)), if_neg (fun less => medium (two.mp less))]
    exact if_pos full

theorem decodeFrom_cases (input : List UInt16) (done spare : List UInt8) :
    (¬Overflows input spare.length ∧
      ∃ rest, decodeFrom input done.length (done ++ spare) =
        (.ok (done ++ kept input).length, done ++ kept input ++ rest)) ∨
    (Overflows input spare.length ∧
      ∃ decoded, decodeFrom input done.length (done ++ spare) =
        (.error .bufferOverFlow, decoded)) := by
  induction input generalizing done spare with
  | nil =>
    left
    constructor
    · rintro ⟨before, ch, after, split, _⟩
      cases before <;> cases split
    · exact ⟨spare, by simp [decodeFrom, kept]⟩
  | cons ch rest induction =>
    by_cases fits : (unitBytes ch).length ≤ spare.length
    · rw [overflows_cons fits, kept_cons, keptBytes]
      by_cases two : TwoByteUnit ch
      · have width : (unitBytes ch).length = 2 := by
          unfold unitBytes
          rw [if_neg (by have large := two.1; omega), if_pos two.2]
          rfl
        obtain ⟨left, same, step⟩ := decodeFrom_two two rest done spare (by omega)
        rw [if_pos two, step, List.nil_append, List.length_nil, Nat.sub_zero, ← same]
        exact induction done left
      · rw [if_neg two, decodeFrom_plain two rest done spare fits, ← List.append_assoc,
          ← List.length_drop]
        exact induction (done ++ unitBytes ch) (spare.drop (unitBytes ch).length)
    · right
      refine ⟨overflows_of_wide (by omega) rest, _, decodeFrom_full ?_ rest⟩
      rw [List.length_append]
      omega

/-! ## Which of them are UTF-8 -/

theorem exists_character (scalar : ¬Surrogate ch) :
    ∃ character : Char, character.toNat < 0x10000 ∧ unit character = ch := by
  have bound := ch.toNat_lt
  have valid : ch.toUInt32.isValidChar := by
    unfold Surrogate at scalar
    change ch.toNat < 0xd800 ∨ (0xdfff < ch.toNat ∧ ch.toNat < 0x110000)
    omega
  have below : (Char.mk ch.toUInt32 valid).toNat < 0x10000 := bound
  refine ⟨⟨ch.toUInt32, valid⟩, below, ?_⟩
  rw [← UInt16.toNat_inj, unit_toNat below]
  rfl

theorem not_surrogate_unit (below : character.toNat < 0x10000) : ¬Surrogate (unit character) := by
  have valid : character.toNat < 0xd800 ∨
      (0xdfff < character.toNat ∧ character.toNat < 0x110000) := character.valid
  unfold Surrogate
  rw [unit_toNat below]
  omega

def keptText (input : List UInt16) : List Char :=
  (input.filter fun ch => ¬TwoByteUnit ch).map fun ch => Char.ofNat ch.toNat

theorem ofNat_unit (below : character.toNat < 0x10000) :
    Char.ofNat (unit character).toNat = character := by
  rw [unit_toNat below, Char.ofNat_toNat]

theorem kept_eq_utf8 (scalars : ∀ ch ∈ input, ¬Surrogate ch) :
    kept input = utf8 (keptText input) := by
  induction input with
  | nil => rfl
  | cons ch rest induction =>
    have others := induction fun other member =>
      scalars other (List.mem_cons_of_mem ch member)
    rw [kept_cons, keptBytes, keptText, others]
    by_cases two : TwoByteUnit ch
    · rw [if_pos two, List.filter_cons_of_neg (by simpa using two)]
      rfl
    · obtain ⟨character, below, rfl⟩ := exists_character (scalars ch List.mem_cons_self)
      rw [if_neg two, List.filter_cons_of_pos (by simpa using two), List.map_cons, utf8_cons,
        ofNat_unit below, utf8EncodeChar_eq_unitBytes below]
      rfl

theorem validUtf8_kept (scalars : ∀ ch ∈ input, ¬Surrogate ch) :
    ValidUtf8 (kept input) := ⟨_, kept_eq_utf8 scalars⟩

theorem first_character {rest : List UInt8} {text : List Char}
    (same : unitBytes ch ++ rest = utf8 text) :
    ∃ character less, character.toNat < 0x10000 ∧ unit character = ch ∧ rest = utf8 less := by
  obtain ⟨lead, more, bytes, read⟩ := leadUnit_unitBytes ch rest
  rw [bytes, List.cons_append] at same
  cases text with
  | nil => cases same
  | cons character text =>
    rw [utf8_cons] at same
    by_cases below : character.toNat < 0x10000
    · obtain ⟨lead', more', bytes', read'⟩ := leadUnit_unitBytes (unit character) (utf8 text)
      rw [utf8EncodeChar_eq_unitBytes below, bytes', List.cons_append, List.cons.injEq] at same
      rw [← same.1, ← same.2, read, Option.some.injEq, Prod.mk.injEq, Except.ok.injEq] at read'
      have behind := List.append_inj_right same.2 (by omega)
      exact ⟨character, text, below, read'.1.symm, behind⟩
    · obtain ⟨lead', more', bytes', read'⟩ := leadUnit_multiByte (Nat.not_lt.mp below)
      rw [bytes', List.cons_append, List.cons.injEq] at same
      have other := read' (utf8 text)
      rw [← same.1, ← same.2, read] at other
      cases other

theorem scalars_of_validUtf8_kept (valid : ValidUtf8 (kept input)) :
    ∀ ch ∈ input, ¬Surrogate ch := by
  induction input with
  | nil =>
    intro ch member
    cases member
  | cons ch rest induction =>
    obtain ⟨text, same⟩ := valid
    rw [kept_cons, keptBytes] at same
    rw [List.forall_mem_cons]
    split_ifs at same with two
    · refine ⟨?_, induction ⟨text, same⟩⟩
      rintro ⟨large, _⟩
      have small := two.2
      omega
    · obtain ⟨character, less, below, rfl, behind⟩ := first_character same
      exact ⟨not_surrogate_unit below, induction ⟨less, behind⟩⟩

/-! ## Safety -/

/-- All accesses are in range, what is returned is UTF-8, and an output that is too
long is reported. -/
structure DecodesSafely (input : List UInt16) (buffer : List UInt8) : Prop where
  inRange : decodeFromChecked input 0 buffer = .ok (decode input buffer)
  valid : ∀ n decoded, decode input buffer = (.ok n, decoded) → ValidUtf8 (decoded.take n)
  overflow : buffer.length < (output input).length →
    ∃ decoded, decode input buffer = (.error .bufferOverFlow, decoded)

/-- The units of an output that fits are no surrogates, and one that does not fit runs
out of room even when the units of two bytes are not counted. -/
structure Decodable (input : List UInt16) (room : Nat) : Prop where
  scalars : (output input).length ≤ room → ∀ ch ∈ input, ¬Surrogate ch
  overflows : room < (output input).length → Overflows input room

theorem length_kept_le (input : List UInt16) : (kept input).length ≤ (output input).length := by
  induction input with
  | nil => exact Nat.le_refl _
  | cons ch rest induction =>
    have narrow := length_keptBytes_le ch
    rw [kept_cons, output, List.flatMap_cons, List.length_append, List.length_append]
    exact Nat.add_le_add narrow induction

theorem not_overflows_of_fits {room : Nat}
    (fits : (output input).length ≤ room) : ¬Overflows input room := by
  rintro ⟨before, ch, after, rfl, wide⟩
  have narrow := length_kept_le before
  simp only [output, List.flatMap_append, List.flatMap_cons, List.length_append] at fits narrow
  omega

/-- `decode` is safe exactly on the units that can be decoded. -/
theorem decodesSafely_iff_decodable (input : List UInt16) (buffer : List UInt8) :
    DecodesSafely input buffer ↔ Decodable input buffer.length := by
  have outcome := decodeFrom_cases input [] buffer
  simp only [List.nil_append, List.length_nil] at outcome
  constructor
  · intro safe
    constructor
    · intro fits
      rcases outcome with ⟨_, rest, returned⟩ | ⟨overflows, _⟩
      · have valid := safe.valid _ _ returned
        rw [List.take_left] at valid
        exact scalars_of_validUtf8_kept valid
      · exact absurd overflows (not_overflows_of_fits fits)
    · intro long
      obtain ⟨decoded, reported⟩ := safe.overflow long
      rcases outcome with ⟨_, rest, returned⟩ | ⟨overflows, _⟩
      · rw [decode, returned] at reported
        cases reported
      · exact overflows
  · intro decodable
    refine ⟨decodeFromChecked_eq input 0 buffer, ?_, ?_⟩
    · intro n decoded returned
      rcases outcome with ⟨fits, rest, written⟩ | ⟨_, other, reported⟩
      · have short : (output input).length ≤ buffer.length := by
          by_contra long
          exact fits (decodable.overflows (by omega))
        rw [decode, written, Prod.mk.injEq, Except.ok.injEq] at returned
        rw [← returned.1, ← returned.2, List.take_left]
        exact validUtf8_kept (decodable.scalars short)
      · rw [decode, reported] at returned
        cases returned
    · intro long
      rcases outcome with ⟨fits, _⟩ | ⟨_, decoded, reported⟩
      · exact absurd (decodable.overflows long) fits
      · exact ⟨decoded, reported⟩

/-- A surrogate is decoded to bytes that are not UTF-8. Two units of two bytes are
decoded into a buffer with room for one. -/
theorem decode_surrogate_and_twoByte :
    (decode [0xd800] [0, 0, 0] = (.ok 3, [0xed, 0xa0, 0x80]) ∧ ¬ValidUtf8 [0xed, 0xa0, 0x80]) ∧
      decode [0xe9, 0xe9] [0, 0] = (.ok 0, [0xc3, 0xa9]) := by
  refine ⟨⟨by decide, ?_⟩, by decide⟩
  intro valid
  have same : kept [0xd800] = [0xed, 0xa0, 0x80] := by decide
  rw [← same] at valid
  exact scalars_of_validUtf8_kept valid 0xd800 List.mem_cons_self (by decide)

end HypervisorFirmware.EfiStr
