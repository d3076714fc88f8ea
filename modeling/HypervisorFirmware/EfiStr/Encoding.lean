import HypervisorFirmware.EfiStr.Encoder

/-! # Encoding into a buffer

What `encode` does with strings of any kind and buffers of any length. The callback
lets the index of the next unit be one past the end of the buffer. -/

namespace HypervisorFirmware.EfiStr

/-- The call returns, it succeeds on the strings of the basic plane for which there is
room and writes their units, and it reports the others. -/
structure EncodesSafely (text : List Char) (buffer : List UInt16) : Prop where
  returns : ∃ result encoded, encode text buffer = .ok (result, encoded)
  succeeds : (∃ n encoded, encode text buffer = .ok (.ok n, encoded)) ↔
    (∀ character ∈ text, character.toNat < 0x10000) ∧ text.length ≤ buffer.length
  written : ∀ n encoded, encode text buffer = .ok (.ok n, encoded) →
    n = text.length ∧ encoded = text.map unit ++ buffer.drop n
  reported : ∀ error encoded, encode text buffer = .ok (.error error, encoded) →
    error = .multiByte ∨ error = .bufferOverFlow

/-- The characters fit, or one that cannot be encoded comes no later than the first
for which there is no room. -/
def Encodable (text : List Char) (room : Nat) : Prop :=
  text.length ≤ room ∨ ∃ before character after, text = before ++ character :: after ∧
    before.length ≤ room ∧ 0x10000 ≤ character.toNat

theorem exists_first_above {text : List Char}
    (above : ¬∀ character ∈ text, character.toNat < 0x10000) :
    ∃ before character after, text = before ++ character :: after ∧
      (∀ earlier ∈ before, earlier.toNat < 0x10000) ∧ 0x10000 ≤ character.toNat := by
  induction text with
  | nil => exact absurd (fun _ member => by cases member) above
  | cons head text induction =>
    by_cases below : head.toNat < 0x10000
    · have later : ¬∀ character ∈ text, character.toNat < 0x10000 := by
        intro rest
        exact above (List.forall_mem_cons.mpr ⟨below, rest⟩)
      obtain ⟨before, character, after, rfl, plain, large⟩ := induction later
      exact ⟨head :: before, character, after, rfl, List.forall_mem_cons.mpr ⟨below, plain⟩, large⟩
    · refine ⟨[], head, text, rfl, ?_, Nat.not_lt.mp below⟩
      intro earlier member
      cases member

variable {character : Char}

theorem encode_multiByte {before : List Char} (after : List Char)
    (below : ∀ earlier ∈ before, earlier.toNat < 0x10000) (above : 0x10000 ≤ character.toNat)
    {buffer : List UInt16} (room : before.length ≤ buffer.length) :
    encode (before ++ character :: after) buffer =
      .ok (.error .multiByte, before.map unit ++ buffer.drop before.length) := by
  obtain ⟨fuel, reached⟩ := encode_after before (character :: after) below buffer room
  obtain ⟨lead, more, bytes, read⟩ := leadUnit_multiByte above
  have remaining : (utf8 (before ++ character :: after)).drop (utf8 before).length =
      lead :: (more ++ utf8 after) := by
    rw [utf8_append, List.drop_left, utf8_cons, bytes, List.cons_append]
  rw [reached, Loop.run, encodeFncBody, remaining]
  simp only [read]
  rfl

theorem encode_panics {before : List Char} (after : List Char)
    (below : ∀ earlier ∈ before, earlier.toNat < 0x10000) (plain : character.toNat < 0x10000)
    {buffer : List UInt16} (full : before.length = buffer.length) :
    encode (before ++ character :: after) buffer = .error .panicked := by
  obtain ⟨fuel, reached⟩ := encode_after before (character :: after) below buffer
    (Nat.le_of_eq full)
  obtain ⟨lead, more, bytes, read⟩ := leadUnit_unitBytes (unit character) (utf8 after)
  have remaining : (utf8 (before ++ character :: after)).drop (utf8 before).length =
      lead :: (more ++ utf8 after) := by
    rw [utf8_append, List.drop_left, utf8_cons, utf8EncodeChar_eq_unitBytes plain, bytes,
      List.cons_append]
  rw [reached, Loop.run, encodeFncBody, remaining]
  simp only [read]
  rw [encodeCallback, if_neg (by simp; omega), if_neg (by simp [full])]
  rfl

theorem not_encodable_of_late {text : List Char} {room : Nat} (long : room < text.length)
    (below : ∀ character ∈ text.take (room + 1), character.toNat < 0x10000) :
    ¬Encodable text room := by
  rintro (short | ⟨before, character, after, rfl, early, above⟩)
  · omega
  · have looked : character ∈ (before ++ character :: after).take (room + 1) := by
      rw [List.take_append, List.mem_append]
      right
      obtain ⟨more, positive⟩ : ∃ more, room + 1 - before.length = more + 1 :=
        ⟨room - before.length, by omega⟩
      rw [positive, List.take_succ_cons]
      exact List.mem_cons_self
    have plain := below character looked
    omega

theorem encode_long {text : List Char} {buffer : List UInt16} (long : buffer.length < text.length)
    (below : ∀ character ∈ text.take (buffer.length + 1), character.toNat < 0x10000) :
    encode text buffer = .error .panicked := by
  have whole : text = text.take buffer.length ++
      text[buffer.length] :: text.drop (buffer.length + 1) := by
    rw [List.getElem_cons_drop, List.take_append_drop]
  rw [List.take_succ_eq_append_getElem long, List.forall_mem_append,
    List.forall_mem_singleton] at below
  rw [whole]
  apply encode_panics _ below.1 below.2
  rw [List.length_take]
  omega

theorem encode_cases (text : List Char) (buffer : List UInt16) :
    ((∀ character ∈ text, character.toNat < 0x10000) ∧ text.length ≤ buffer.length ∧
      encode text buffer = .ok (.ok text.length, text.map unit ++ buffer.drop text.length)) ∨
    (¬(∀ character ∈ text, character.toNat < 0x10000) ∧ Encodable text buffer.length ∧
      ∃ encoded, encode text buffer = .ok (.error .multiByte, encoded)) ∨
    (¬Encodable text buffer.length ∧ encode text buffer = .error .panicked) := by
  -- The characters that the call looks at, if it gets so far.
  have split := List.take_append_drop (buffer.length + 1) text
  by_cases below : ∀ character ∈ text.take (buffer.length + 1), character.toNat < 0x10000
  · by_cases fits : text.length ≤ buffer.length
    · rw [List.take_of_length_le (by omega)] at below
      exact .inl ⟨below, fits, encode_eq text below buffer fits⟩
    · rw [Nat.not_le] at fits
      exact .inr (.inr ⟨not_encodable_of_late fits below, encode_long fits below⟩)
  · obtain ⟨before, character, after, looked, plain, above⟩ := exists_first_above below
    have early : before.length ≤ buffer.length := by
      have length := congrArg List.length looked
      rw [List.length_take, List.length_append, List.length_cons] at length
      omega
    have whole : text = before ++ character :: (after ++ text.drop (buffer.length + 1)) := by
      rw [looked, List.append_assoc, List.cons_append] at split
      exact split.symm
    right
    left
    refine ⟨?_, .inr ⟨before, character, _, whole, early, above⟩, ?_⟩
    · intro all
      exact below fun other member => all other (List.mem_of_mem_take member)
    · rw [whole]
      exact ⟨_, encode_multiByte _ plain above early⟩

/-- `encode` respects its buffer exactly when the text can be encoded into it or is
refused in time. -/
theorem encodesSafely_iff_encodable (text : List Char) (buffer : List UInt16) :
    EncodesSafely text buffer ↔ Encodable text buffer.length := by
  rcases encode_cases text buffer with
    ⟨below, fits, returned⟩ | ⟨above, encodable, encoded, reported⟩ | ⟨late, panicked⟩
  · refine ⟨fun _ => .inl fits, fun _ => ⟨⟨_, _, returned⟩, ?_, ?_, ?_⟩⟩
    · exact ⟨fun _ => ⟨below, fits⟩, fun _ => ⟨_, _, returned⟩⟩
    · intro n encoded outcome
      rw [returned] at outcome
      cases outcome
      exact ⟨rfl, rfl⟩
    · intro error encoded outcome
      rw [returned] at outcome
      cases outcome
  · refine ⟨fun _ => encodable, fun _ => ⟨⟨_, _, reported⟩, ?_, ?_, ?_⟩⟩
    · constructor
      · rintro ⟨n, other, outcome⟩
        rw [reported] at outcome
        cases outcome
      · intro success
        exact absurd success.1 above
    · intro n other outcome
      rw [reported] at outcome
      cases outcome
    · intro error other outcome
      rw [reported] at outcome
      cases outcome
      exact .inl rfl
  · constructor
    · intro safe
      obtain ⟨result, encoded, returned⟩ := safe.returns
      rw [panicked] at returned
      cases returned
    · intro encodable
      exact absurd encodable late

/-- A string one character longer than the buffer. -/
theorem encode_one_too_long : encode ['a', 'b'] [0] = .error .panicked := by
  decide

end HypervisorFirmware.EfiStr
