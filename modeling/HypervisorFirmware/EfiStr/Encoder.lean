import Mathlib.Algebra.Group.Nat.Defs
import HypervisorFirmware.Foundation.Execution

/-! # UCS-2 strings

`encoder.rs` of the `efi-str` crate: strings to 16-bit units and back. -/

namespace HypervisorFirmware.EfiStr

inductive Error
  | bufferOverFlow
  | multiByte
  | notUtf8String
  | impossible
  deriving DecidableEq, Repr

def utf8 (text : List Char) : List UInt8 := text.flatMap String.utf8EncodeChar

/-! ## Encoding -/

/-- What `encode_fnc` reads off the lead byte of a character and the bytes behind
it: what the callback gets, and by how much the index advances. -/
def leadUnit (lead : UInt8) (rest : List UInt8) : Option (Except Error UInt16 × Nat) :=
  if lead ≤ 0b01111111 then
    some (.ok lead.toUInt16, 1)
  else if 0b11000000 ≤ lead ∧ lead ≤ 0b11011111 then
    match rest with
    | second :: _ =>
      let a := (lead &&& 0b00011111).toUInt16
      let b := (second &&& 0b00111111).toUInt16
      some (.ok (a <<< 6 ||| b), 2)
    | _ => none
  else if 0b11100000 ≤ lead ∧ lead ≤ 0b11101111 then
    match rest with
    | second :: third :: _ =>
      let a := (lead &&& 0b00001111).toUInt16
      let b := (second &&& 0b00111111).toUInt16
      let c := (third &&& 0b00111111).toUInt16
      some (.ok (a <<< 12 ||| b <<< 6 ||| c), 3)
    | _ => none
  else if 0b11110000 ≤ lead ∧ lead ≤ 0b11110111 then
    match rest with
    | _ :: _ :: _ :: _ => some (.error .multiByte, 0)
    | _ => none
  else
    none

section Encode

variable {State : Type} (bytes : List UInt8)
  (fnc : Except Error UInt16 → State → Exec (Except Error Nat × State))

def encodeFncBody :
    Nat × State → Exec ((Nat × State) ⊕ (Except Error Nat × State))
  | (bytesIndex, state) =>
    match bytes.drop bytesIndex with
    | [] => .ok (.inr (.ok bytesIndex, state))
    | lead :: rest =>
      match leadUnit lead rest with
      | none => .ok (.inr (.error .notUtf8String, state))
      | some (ret, width) => do
          let (result, state) ← fnc ret state
          match result with
          | .error error => return .inr (.error error, state)
          | .ok _ => return .inl (bytesIndex + width, state)

def encodeFnc (fuel : Nat) (state : State) : Exec (Except Error Nat × State) :=
  Loop.run (encodeFncBody bytes fnc) fuel (0, state)

end Encode

def encodeCallback :
    Except Error UInt16 → Nat × List UInt16 → Exec (Except Error Nat × (Nat × List UInt16))
  | .ok ch, (i, buffer) =>
    if i > buffer.length + 1 then .ok (.error .bufferOverFlow, (i, buffer))
    else if i < buffer.length then .ok (.ok (i + 1), (i + 1, buffer.set i ch))
    else .error .panicked
  | .error error, written => .ok (.error error, written)

/-- Every iteration but the last takes at least one byte: at the characters that do
not advance the index the callback returns an error. -/
def encode (input : List Char) (buffer : List UInt16) :
    Exec (Except Error Nat × List UInt16) := do
  let (result, i, buffer) ←
    encodeFnc (utf8 input) encodeCallback ((utf8 input).length + 1) (0, buffer)
  return (result.map fun _ => i, buffer)

/-! ## Decoding -/

def decodeFrom : List UInt16 → Nat → List UInt8 → Except Error Nat × List UInt8
  | [], index, buffer => (.ok index, buffer)
  | ch :: rest, index, buffer =>
    if ch ≤ 0x007f then
      if index + 1 > buffer.length then (.error .bufferOverFlow, buffer)
      else decodeFrom rest (index + 1) (buffer.set index ch.toUInt8)
    else if ch ≤ 0x07ff then
      if index + 2 > buffer.length then (.error .bufferOverFlow, buffer)
      else
        let ch0_6 := ((ch <<< 10) >>> 10).toUInt8
        let ch6_12 := ((ch <<< 5) >>> 11).toUInt8
        let buffer := buffer.set index (0b11000000 + ch6_12)
        let buffer := buffer.set (index + 1) (0b10000000 + ch0_6)
        -- The index stays where it is.
        decodeFrom rest index buffer
    else
      if index + 3 > buffer.length then (.error .bufferOverFlow, buffer)
      else
        let ch0_6 := ((ch <<< 10) >>> 10).toUInt8
        let ch6_12 := ((ch <<< 4) >>> 10).toUInt8
        let ch12_16 := ((ch <<< 0) >>> 12).toUInt8
        let buffer := buffer.set index (0b11100000 + ch12_16)
        let buffer := buffer.set (index + 1) (0b10000000 + ch6_12)
        let buffer := buffer.set (index + 2) (0b10000000 + ch0_6)
        decodeFrom rest (index + 3) buffer

def decode (input : List UInt16) (buffer : List UInt8) : Except Error Nat × List UInt8 :=
  decodeFrom input 0 buffer

/-! ## Characters and units -/

def unit (character : Char) : UInt16 := UInt16.ofNat character.toNat

def TwoByte (character : Char) : Prop := 0x80 ≤ character.toNat ∧ character.toNat ≤ 0x7ff

instance (character : Char) : Decidable (TwoByte character) :=
  inferInstanceAs (Decidable (_ ∧ _))

@[simp] theorem utf8_nil : utf8 [] = [] := rfl

@[simp] theorem utf8_cons (character : Char) (rest : List Char) :
    utf8 (character :: rest) = String.utf8EncodeChar character ++ utf8 rest := rfl

@[simp] theorem utf8_append (first second : List Char) :
    utf8 (first ++ second) = utf8 first ++ utf8 second := List.flatMap_append

theorem utf8_injective {first second : List Char} (same : utf8 first = utf8 second) :
    first = second := by
  have encoded : first.utf8Encode = second.utf8Encode := congrArg List.toByteArray same
  have decoded := congrArg ByteArray.utf8Decode? encoded
  rw [List.utf8Decode?_utf8Encode, List.utf8Decode?_utf8Encode, Option.some.injEq] at decoded
  exact congrArg Array.toList decoded

variable {character : Char}

theorem unit_toNat (below : character.toNat < 0x10000) :
    (unit character).toNat = character.toNat := by
  rw [unit, UInt16.toNat_ofNat', Nat.mod_eq_of_lt below]

theorem unit_le_iff (below : character.toNat < 0x10000) (bound : UInt16) :
    unit character ≤ bound ↔ character.toNat ≤ bound.toNat := by
  rw [UInt16.le_iff_toNat_le, unit_toNat below]

theorem utf8EncodeChar_cases (below : character.toNat < 0x10000) : (character.toNat ≤ 0x7f ∧
      String.utf8EncodeChar character = [UInt8.ofNat character.toNat]) ∨
    (TwoByte character ∧ String.utf8EncodeChar character =
      [UInt8.ofNat (character.toNat / 64 % 32 + 192), UInt8.ofNat (character.toNat % 64 + 128)]) ∨
    (0x800 ≤ character.toNat ∧ String.utf8EncodeChar character =
      [UInt8.ofNat (character.toNat / 4096 % 16 + 224),
        UInt8.ofNat (character.toNat / 64 % 64 + 128),
        UInt8.ofNat (character.toNat % 64 + 128)]) := by
  change character.val.toNat < 0x10000 at below
  unfold TwoByte String.utf8EncodeChar Char.toNat
  simp only
  split_ifs with one two three
  · exact .inl ⟨one, rfl⟩
  · exact .inr (.inl ⟨⟨by omega, two⟩, rfl⟩)
  · exact .inr (.inr ⟨by omega, rfl⟩)
  · omega

def unitBytes (ch : UInt16) : List UInt8 :=
  if ch.toNat ≤ 0x7f then [UInt8.ofNat ch.toNat]
  else if ch.toNat ≤ 0x7ff then
    [UInt8.ofNat (ch.toNat / 64 % 32 + 192), UInt8.ofNat (ch.toNat % 64 + 128)]
  else
    [UInt8.ofNat (ch.toNat / 4096 % 16 + 224), UInt8.ofNat (ch.toNat / 64 % 64 + 128),
      UInt8.ofNat (ch.toNat % 64 + 128)]

theorem utf8EncodeChar_eq_unitBytes (below : character.toNat < 0x10000) :
    String.utf8EncodeChar character = unitBytes (unit character) := by
  rw [unitBytes, unit_toNat below]
  rcases utf8EncodeChar_cases below with ⟨small, bytes⟩ | ⟨⟨large, small⟩, bytes⟩ | ⟨large, bytes⟩
  · rw [if_pos small, bytes]
  · rw [if_neg (by omega), if_pos small, bytes]
  · rw [if_neg (by omega), if_neg (by omega), bytes]

/-! ## Encoding a string -/

theorem toNat_low_bits (byte mask : UInt8) (width : Nat) (low : mask.toNat = 2 ^ width - 1) :
    ((byte &&& mask).toUInt16).toNat = byte.toNat % 2 ^ width := by
  rw [UInt8.toNat_toUInt16, UInt8.toNat_and, low, Nat.and_two_pow_sub_one_eq_mod]

theorem toNat_shiftLeft_or (high low shift : UInt16) (small : shift.toNat < 16)
    (fits : high.toNat * 2 ^ shift.toNat < 2 ^ 16) (below : low.toNat < 2 ^ shift.toNat) :
    (high <<< shift ||| low).toNat = high.toNat * 2 ^ shift.toNat + low.toNat := by
  rw [UInt16.toNat_or, UInt16.toNat_shiftLeft, Nat.mod_eq_of_lt small, Nat.shiftLeft_eq,
    Nat.mod_eq_of_lt fits, ← Nat.shiftLeft_eq, Nat.shiftLeft_add_eq_or_of_lt below]

theorem leadUnit_two (lead second : UInt8) (lower : 192 ≤ lead.toNat)
    (upper : lead.toNat ≤ 223) (rest : List UInt8) :
    ∃ result, leadUnit lead (second :: rest) = some (.ok result, 2) ∧
      result.toNat = lead.toNat % 32 * 64 + second.toNat % 64 := by
  have notOne : ¬ lead ≤ 0b01111111 := by
    rw [UInt8.le_iff_toNat_le]
    simp only [UInt8.reduceToNat]
    omega
  have isTwo : 0b11000000 ≤ lead ∧ lead ≤ 0b11011111 :=
    ⟨UInt8.le_iff_toNat_le.mpr lower, UInt8.le_iff_toNat_le.mpr upper⟩
  have high := toNat_low_bits lead 0b00011111 5 rfl
  have low := toNat_low_bits second 0b00111111 6 rfl
  refine ⟨_, by unfold leadUnit; rw [if_neg notOne, if_pos isTwo], ?_⟩
  rw [toNat_shiftLeft_or _ _ 6 (by decide)]
  · simp only [high, low, UInt16.reduceToNat, Nat.reducePow]
  · simp only [high, UInt16.reduceToNat]
    omega
  · simp only [low, UInt16.reduceToNat]
    omega

theorem leadUnit_three (lead second third : UInt8) (lower : 224 ≤ lead.toNat)
    (upper : lead.toNat ≤ 239) (rest : List UInt8) :
    ∃ result, leadUnit lead (second :: third :: rest) = some (.ok result, 3) ∧
      result.toNat = lead.toNat % 16 * 4096 + second.toNat % 64 * 64 + third.toNat % 64 := by
  have notOne : ¬ lead ≤ 0b01111111 := by
    rw [UInt8.le_iff_toNat_le]
    simp only [UInt8.reduceToNat]
    omega
  have notTwo : ¬ (0b11000000 ≤ lead ∧ lead ≤ 0b11011111) := by
    rw [UInt8.le_iff_toNat_le, UInt8.le_iff_toNat_le]
    simp only [UInt8.reduceToNat]
    omega
  have isThree : 0b11100000 ≤ lead ∧ lead ≤ 0b11101111 :=
    ⟨UInt8.le_iff_toNat_le.mpr lower, UInt8.le_iff_toNat_le.mpr upper⟩
  have high := toNat_low_bits lead 0b00001111 4 rfl
  have middle := toNat_low_bits second 0b00111111 6 rfl
  have low := toNat_low_bits third 0b00111111 6 rfl
  refine ⟨_, by unfold leadUnit; rw [if_neg notOne, if_neg notTwo, if_pos isThree], ?_⟩
  have tail : ((second &&& 0b00111111).toUInt16 <<< 6 |||
      (third &&& 0b00111111).toUInt16).toNat = second.toNat % 64 * 64 + third.toNat % 64 := by
    rw [toNat_shiftLeft_or _ _ 6 (by decide)]
    · simp only [middle, low, UInt16.reduceToNat, Nat.reducePow]
    · simp only [middle, UInt16.reduceToNat]
      omega
    · simp only [low, UInt16.reduceToNat]
      omega
  rw [UInt16.or_assoc, toNat_shiftLeft_or _ _ 12 (by decide)]
  · simp only [high, tail, UInt16.reduceToNat]
    omega
  · simp only [high, UInt16.reduceToNat]
    omega
  · simp only [tail, UInt16.reduceToNat]
    omega

theorem leadUnit_unitBytes (ch : UInt16) (rest : List UInt8) :
    ∃ lead more, unitBytes ch = lead :: more ∧
      leadUnit lead (more ++ rest) = some (.ok ch, more.length + 1) := by
  have bound := ch.toNat_lt
  unfold unitBytes
  split_ifs with one two
  · refine ⟨_, _, rfl, ?_⟩
    have lead : (UInt8.ofNat ch.toNat).toNat = ch.toNat := by
      rw [UInt8.toNat_ofNat']
      omega
    have ascii : UInt8.ofNat ch.toNat ≤ 0b01111111 := by
      rw [UInt8.le_iff_toNat_le, lead]
      exact one
    have same : (UInt8.ofNat ch.toNat).toUInt16 = ch := by
      rw [← UInt16.toNat_inj, UInt8.toNat_toUInt16, lead]
    unfold leadUnit
    rw [if_pos ascii, same]
    rfl
  · refine ⟨_, _, rfl, ?_⟩
    rcases leadUnit_two (UInt8.ofNat (ch.toNat / 64 % 32 + 192)) (UInt8.ofNat (ch.toNat % 64 + 128))
      (by rw [UInt8.toNat_ofNat']; omega) (by rw [UInt8.toNat_ofNat']; omega) rest with
      ⟨result, read, value⟩
    have same : result = ch := by
      rw [← UInt16.toNat_inj, value, UInt8.toNat_ofNat', UInt8.toNat_ofNat']
      omega
    rw [same] at read
    exact read
  · refine ⟨_, _, rfl, ?_⟩
    rcases leadUnit_three (UInt8.ofNat (ch.toNat / 4096 % 16 + 224))
      (UInt8.ofNat (ch.toNat / 64 % 64 + 128)) (UInt8.ofNat (ch.toNat % 64 + 128))
      (by rw [UInt8.toNat_ofNat']; omega) (by rw [UInt8.toNat_ofNat']; omega) rest with
      ⟨result, read, value⟩
    have same : result = ch := by
      rw [← UInt16.toNat_inj, value, UInt8.toNat_ofNat', UInt8.toNat_ofNat', UInt8.toNat_ofNat']
      omega
    rw [same] at read
    exact read

theorem leadUnit_multiByte (above : 0x10000 ≤ character.toNat) :
    ∃ lead more, String.utf8EncodeChar character = lead :: more ∧
      ∀ rest, leadUnit lead (more ++ rest) = some (.error .multiByte, 0) := by
  change 0x10000 ≤ character.val.toNat at above
  have bytes : String.utf8EncodeChar character =
      [UInt8.ofNat (character.val.toNat / 262144 % 8 + 240),
        UInt8.ofNat (character.val.toNat / 4096 % 64 + 128),
        UInt8.ofNat (character.val.toNat / 64 % 64 + 128),
        UInt8.ofNat (character.val.toNat % 64 + 128)] := by
    unfold String.utf8EncodeChar
    simp only
    rw [if_neg (by omega), if_neg (by omega), if_neg (by omega)]
  have value : (UInt8.ofNat (character.val.toNat / 262144 % 8 + 240)).toNat =
      character.val.toNat / 262144 % 8 + 240 := by
    rw [UInt8.toNat_ofNat']
    omega
  refine ⟨_, _, bytes, ?_⟩
  intro rest
  unfold leadUnit
  simp only [UInt8.le_iff_toNat_le, value, UInt8.reduceToNat]
  rw [if_neg (by omega), if_neg (by omega), if_neg (by omega), if_pos (by omega)]
  rfl

/-- One iteration at the boundary of a character. `done` is what has been read; the
units written so far stand before the rest of the buffer. -/
theorem encodeFncBody_character (done rest : List Char)
    (below : character.toNat < 0x10000) (replaced : UInt16) (spare : List UInt16) :
    encodeFncBody (utf8 (done ++ character :: rest)) encodeCallback
        ((utf8 done).length, done.length, done.map unit ++ replaced :: spare) =
      .ok (.inl ((utf8 (done ++ [character])).length, (done ++ [character]).length,
        (done ++ [character]).map unit ++ spare)) := by
  rcases leadUnit_unitBytes (unit character) (utf8 rest) with ⟨lead, more, bytes, read⟩
  have encoded := utf8EncodeChar_eq_unitBytes below
  have remaining : (utf8 (done ++ character :: rest)).drop (utf8 done).length =
      lead :: (more ++ utf8 rest) := by
    rw [utf8_append, List.drop_left, utf8_cons, encoded, bytes, List.cons_append]
  have written : (done.map unit ++ replaced :: spare).set done.length
      (unit character) = (done ++ [character]).map unit ++ spare := by
    rw [List.set_append_right _ _ (by simp)]
    simp
  have advanced : (utf8 done).length + (more.length + 1) = (utf8 (done ++ [character])).length := by
    simp [encoded, bytes]
  rw [encodeFncBody, remaining]
  simp only [read]
  rw [encodeCallback, if_neg (by simp; omega), if_pos (by simp), written, advanced]
  simp only [Exec.ok_bind, List.length_append, List.length_singleton]
  rfl

theorem encodeLoop (done text rest : List Char)
    (below : ∀ character ∈ text, character.toNat < 0x10000)
    (spare : List UInt16) (room : text.length ≤ spare.length) (fuel : Nat) :
    Loop.run (encodeFncBody (utf8 (done ++ (text ++ rest))) encodeCallback) (fuel + text.length)
        ((utf8 done).length, done.length, done.map unit ++ spare) =
      Loop.run (encodeFncBody (utf8 (done ++ (text ++ rest))) encodeCallback) fuel
        ((utf8 (done ++ text)).length, (done ++ text).length,
          (done ++ text).map unit ++ spare.drop text.length) := by
  induction text generalizing done spare with
  | nil => simp
  | cons character text induction =>
    cases spare with
    | nil => simp at room
    | cons replaced spare =>
      have later := induction (done ++ [character])
        (fun other member => below other (List.mem_cons_of_mem _ member)) spare
        (by simpa using room)
      have body := encodeFncBody_character done (text ++ rest)
        (below character List.mem_cons_self) replaced spare
      rw [List.append_assoc, List.singleton_append, List.append_assoc,
        List.singleton_append] at later
      rw [List.length_cons, ← Nat.add_assoc, List.cons_append, Loop.run, body]
      exact later

theorem length_le_utf8 (text : List Char) : text.length ≤ (utf8 text).length := by
  induction text with
  | nil => exact Nat.zero_le _
  | cons character text induction =>
    have width : 0 < (String.utf8EncodeChar character).length := by
      rw [String.length_utf8EncodeChar]
      exact character.utf8Size_pos
    rw [utf8_cons, List.length_append, List.length_cons]
    omega

/-- `encode` is at the first character that is not of the basic plane, or for which the
buffer has no room, after one iteration for each character before it. -/
theorem encode_after (text rest : List Char)
    (below : ∀ character ∈ text, character.toNat < 0x10000) (units : List UInt16)
    (room : text.length ≤ units.length) :
    ∃ fuel, encode (text ++ rest) units = (do
      let (result, i, buffer) ←
        Loop.run (encodeFncBody (utf8 (text ++ rest)) encodeCallback) (fuel + 1)
          ((utf8 text).length, text.length, text.map unit ++ units.drop text.length)
      return (result.map fun _ => i, buffer)) := by
  have enough := length_le_utf8 (text ++ rest)
  rw [List.length_append] at enough
  obtain ⟨fuel, split⟩ : ∃ fuel, (utf8 (text ++ rest)).length + 1 = fuel + 1 + text.length :=
    ⟨(utf8 (text ++ rest)).length - text.length, by omega⟩
  have loop := encodeLoop [] text rest below units room (fuel + 1)
  refine ⟨fuel, ?_⟩
  rw [encode, encodeFnc, split]
  simp only [utf8_nil, List.nil_append, List.length_nil, List.map_nil] at loop
  rw [loop]

theorem encode_eq (text : List Char) (below : ∀ character ∈ text, character.toNat < 0x10000)
    (units : List UInt16) (room : text.length ≤ units.length) :
    encode text units = .ok (.ok text.length, text.map unit ++ units.drop text.length) := by
  obtain ⟨fuel, after⟩ := encode_after text [] below units room
  rw [List.append_nil] at after
  rw [after]
  simp [Loop.run, encodeFncBody, Except.map]

/-! ## Decoding its units -/

theorem marked_field (ch left right : UInt16) (marker : UInt8) (smallLeft : left.toNat < 16)
    (smallRight : right.toNat < 16) :
    marker + ((ch <<< left) >>> right).toUInt8 = UInt8.ofNat
      (ch.toNat * 2 ^ left.toNat % 2 ^ 16 / 2 ^ right.toNat + marker.toNat) := by
  rw [← UInt8.toNat_inj, UInt8.toNat_add, UInt16.toNat_toUInt8, UInt16.toNat_shiftRight,
    UInt16.toNat_shiftLeft, Nat.mod_eq_of_lt smallLeft, Nat.mod_eq_of_lt smallRight,
    Nat.shiftLeft_eq, Nat.shiftRight_eq_div_pow, UInt8.toNat_ofNat', Nat.add_mod_mod,
    Nat.add_comm]

theorem decodeFrom_plain {ch : UInt16} (plain : ¬(0x80 ≤ ch.toNat ∧ ch.toNat ≤ 0x7ff))
    (rest : List UInt16) (done spare : List UInt8)
    (room : (unitBytes ch).length ≤ spare.length) :
    decodeFrom (ch :: rest) done.length (done ++ spare) =
      decodeFrom rest (done ++ unitBytes ch).length
        (done ++ unitBytes ch ++ spare.drop (unitBytes ch).length) := by
  unfold unitBytes at room ⊢
  split_ifs at room ⊢ with one two
  · obtain ⟨replaced, spare, rfl⟩ := List.exists_cons_of_length_pos (Nat.lt_of_succ_le room)
    have byte : ch.toUInt8 = UInt8.ofNat ch.toNat := by
      rw [← UInt8.toNat_inj, UInt16.toNat_toUInt8, UInt8.toNat_ofNat']
    rw [decodeFrom, if_pos (UInt16.le_iff_toNat_le.mpr one), if_neg (by simp), byte]
    simp
  · omega
  · obtain ⟨first, second, third, spare, rfl⟩ : ∃ first second third less,
        spare = first :: second :: third :: less := by
      match spare, room with
      | first :: second :: third :: less, _ => exact ⟨first, second, third, less, rfl⟩
    have lead : (0b11100000 : UInt8) + ((ch <<< 0) >>> 12).toUInt8 =
        UInt8.ofNat (ch.toNat / 4096 % 16 + 224) := by
      rw [marked_field _ _ _ _ (by decide) (by decide)]
      simp only [UInt16.reduceToNat, UInt8.reduceToNat, Nat.reducePow]
      congr 1
      omega
    have middle : (0b10000000 : UInt8) + ((ch <<< 4) >>> 10).toUInt8 =
        UInt8.ofNat (ch.toNat / 64 % 64 + 128) := by
      rw [marked_field _ _ _ _ (by decide) (by decide)]
      simp only [UInt16.reduceToNat, UInt8.reduceToNat, Nat.reducePow]
      congr 1
      omega
    have low : (0b10000000 : UInt8) + ((ch <<< 10) >>> 10).toUInt8 =
        UInt8.ofNat (ch.toNat % 64 + 128) := by
      rw [marked_field _ _ _ _ (by decide) (by decide)]
      simp only [UInt16.reduceToNat, UInt8.reduceToNat, Nat.reducePow]
      congr 1
      omega
    rw [decodeFrom, if_neg (by rw [UInt16.le_iff_toNat_le]; exact one),
      if_neg (by rw [UInt16.le_iff_toNat_le]; exact two), if_neg (by simp)]
    simp only [lead, middle, low]
    rw [List.set_append_right _ _ (Nat.le_refl _), List.set_append_right _ _ (by omega),
      List.set_append_right _ _ (by omega)]
    simp [-UInt8.ofNat_add]

theorem decodeFrom_units (text : List Char) (below : ∀ character ∈ text, character.toNat < 0x10000)
    (plain : ∀ character ∈ text, ¬ TwoByte character) (done spare : List UInt8)
    (room : (utf8 text).length ≤ spare.length) :
    decodeFrom (text.map unit) done.length (done ++ spare) =
      (.ok (done ++ utf8 text).length, done ++ utf8 text ++ spare.drop (utf8 text).length) := by
  induction text generalizing done spare with
  | nil => simp [decodeFrom]
  | cons character text induction =>
    rw [utf8_cons, List.length_append] at room
    have encoded := utf8EncodeChar_eq_unitBytes (below character List.mem_cons_self)
    have notTwo : ¬(0x80 ≤ (unit character).toNat ∧ (unit character).toNat ≤ 0x7ff) := by
      rw [unit_toNat (below character List.mem_cons_self)]
      exact plain character List.mem_cons_self
    rw [List.map_cons, decodeFrom_plain notTwo _ _ _ (by rw [← encoded]; omega), ← encoded]
    rw [induction (fun other member => below other (List.mem_cons_of_mem _ member))
      (fun other member => plain other (List.mem_cons_of_mem _ member)) _ _
      (by rw [List.length_drop]; omega)]
    simp

theorem decodeFrom_index (text : List Char)
    (below : ∀ character ∈ text, character.toNat < 0x10000) (index : Nat)
    (buffer decoded : List UInt8) (m : Nat)
    (returned : decodeFrom (text.map unit) index buffer = (.ok m, decoded)) :
    m ≤ index + (utf8 text).length ∧
      (m = index + (utf8 text).length → ∀ character ∈ text, ¬ TwoByte character) := by
  induction text generalizing index buffer with
  | nil =>
    simp only [List.map_nil, decodeFrom, Prod.mk.injEq, Except.ok.injEq] at returned
    simp [returned.1]
  | cons character text induction =>
    have later := fun other member => below other (List.mem_cons_of_mem character member)
    have here := below character List.mem_cons_self
    rw [List.map_cons, decodeFrom] at returned
    rw [utf8_cons, List.length_append]
    rcases utf8EncodeChar_cases here with ⟨small, bytes⟩ | ⟨⟨two, small⟩, bytes⟩ | ⟨big, bytes⟩
    · rw [if_pos ((unit_le_iff here 0x007f).mpr small)] at returned
      split_ifs at returned
      · cases returned
      · have rest := induction later _ _ returned
        simp only [bytes, List.length_singleton, List.forall_mem_cons]
        refine ⟨by omega, fun reached => ⟨?_, rest.2 (by omega)⟩⟩
        rintro ⟨big, _⟩
        omega
    · rw [if_neg (by rw [unit_le_iff here]; simp only [UInt16.reduceToNat]; omega),
        if_pos ((unit_le_iff here 0x07ff).mpr small)] at returned
      split_ifs at returned
      · cases returned
      · have rest := induction later _ _ returned
        simp only [bytes, List.length_cons, List.length_nil]
        exact ⟨by omega, fun reached => absurd reached (by omega)⟩
    · rw [if_neg (by rw [unit_le_iff here]; simp only [UInt16.reduceToNat]; omega),
        if_neg (by rw [unit_le_iff here]; simp only [UInt16.reduceToNat]; omega)] at returned
      split_ifs at returned
      · cases returned
      · have rest := induction later _ _ returned
        simp only [bytes, List.length_cons, List.length_nil, List.forall_mem_cons]
        refine ⟨by omega, fun reached => ⟨?_, rest.2 (by omega)⟩⟩
        rintro ⟨_, small⟩
        omega

/-! ## The round trip -/

/-- Encoding returns the number of characters, and decoding the units gives back the
bytes of the string. -/
def RoundTrips (text : List Char) (units : List UInt16) (bytes : List UInt8) : Prop :=
  ∃ encoded, encode text units = .ok (.ok text.length, encoded) ∧
    ∃ m decoded, decode (encoded.take text.length) bytes = (.ok m, decoded) ∧
      decoded.take m = utf8 text

/-- `decode` undoes `encode` exactly on the strings without two-byte characters. -/
theorem roundTrips_iff_no_twoByte (text : List Char)
    (below : ∀ character ∈ text, character.toNat < 0x10000)
    (units : List UInt16) (unitRoom : text.length ≤ units.length)
    (bytes : List UInt8) (byteRoom : (utf8 text).length ≤ bytes.length) :
    RoundTrips text units bytes ↔ ∀ character ∈ text, ¬ TwoByte character := by
  have encoded := encode_eq text below units unitRoom
  have taken : (text.map unit ++ units.drop text.length).take text.length = text.map unit := by
    rw [List.take_left' (List.length_map _)]
  constructor
  · rintro ⟨written, encoded', m, decoded, returned, same⟩
    obtain rfl : text.map unit ++ units.drop text.length = written := by
      simpa [encoded] using encoded'
    rw [taken] at returned
    have index := decodeFrom_index text below 0 bytes decoded m returned
    have reached : (utf8 text).length ≤ m := by
      rw [← same, List.length_take]
      exact Nat.min_le_left _ _
    exact index.2 (by omega)
  · intro plain
    refine ⟨_, encoded, (utf8 text).length, utf8 text ++ bytes.drop (utf8 text).length, ?_, ?_⟩
    · have decoded := decodeFrom_units text below plain [] bytes byteRoom
      rw [taken]
      simpa [decode] using decoded
    · rw [List.take_left]

theorem roundTrips_iff_no_twoByte_mixed :
    RoundTrips ['a', '中'] [0, 0] [0, 0, 0, 0] :=
  (roundTrips_iff_no_twoByte ['a', '中'] (by simp) [0, 0] (by simp) [0, 0, 0, 0]
    (by decide)).mpr (by simp [TwoByte])

/-- The letter after the two-byte character overwrites it. -/
theorem not_roundTrips_twoByte : ¬ RoundTrips ['é', 'a'] [0, 0] [0, 0, 0] := by
  rintro ⟨encoded, units, m, decoded, returned, same⟩
  have written : encode ['é', 'a'] [0, 0] = .ok (.ok 2, [0xe9, 0x61]) := by decide
  rw [written] at units
  cases units
  have overwritten : decode ([0xe9, 0x61].take ['é', 'a'].length) [0, 0, 0] =
      (.ok 1, [0x61, 0xa9, 0]) := by decide
  rw [overwritten] at returned
  cases returned
  exact absurd same (by decide)

end HypervisorFirmware.EfiStr
