import HypervisorFirmware.BzImage.Initrd
import HypervisorFirmware.Loader.BootEntry

/-! # The command line

`append_commandline` of `bzimage.rs` puts a text behind the command line that the hypervisor
left in memory. It finds the end of that from the size in the zero page and from the zeros at
both ends of it. -/

namespace HypervisorFirmware.BzImage

open ByteMemory EfiStr

def cmdlineStart : UInt64 := 0x4b000

def cmdlineMaxSize : Nat := 0x10000

/-- Copy data into the slice of the command line, whose indices are checked. -/
def putCmdline (cmdline : List UInt8) (index : Nat) (data : List UInt8) : Exec (List UInt8) :=
  if index + data.length ≤ cmdline.length then
    .ok (cmdline.take index ++ data ++ cmdline.drop (index + data.length))
  else .error .panicked

/-- `append_commandline`, which has no error to return. -/
def appendCommandline (memory : ByteMemory) (addition : List Char) : Exec ByteMemory := do
  let zeroPage : MemoryRegion := ⟨zeroPageStart, 4096⟩
  let cmdline := memory.bytes cmdlineStart cmdlineMaxSize
  -- Use the actual string length but limit to the original incoming size
  let origLen := (← zeroPage.readU32 memory 0x238).toNat
  if origLen > cmdline.length then
    .error .panicked
  else
    let origCmdline ← Loader.asciiStrip (cmdline.take origLen)
    let origLen := (utf8 origCmdline).length
    let data := utf8 addition
    let cmdline ← putCmdline cmdline origLen [0x20]
    let cmdline ← putCmdline cmdline (origLen + 1) data
    let cmdline ← putCmdline cmdline (origLen + 1 + data.length) [0]
    let memory := memory.write cmdlineStart cmdline
    let memory ← zeroPage.writeU32 memory 0x228 cmdlineStart.toUInt32
    zeroPage.writeU32 memory 0x238 (UInt32.ofNat (origLen + data.length + 1))

def commandLine (memory : ByteMemory) : List UInt8 :=
  memory.bytes cmdlineStart (memory.readUInt32 (zeroPageStart + 0x238)).toNat

/-- A text, with zeros behind it as far as the recorded size goes. -/
structure HasCommandLine (memory : ByteMemory) (text : List Char) : Prop where
  head : text.head? ≠ some '\x00'
  last : text.getLast? ≠ some '\x00'
  padded : ∃ trail, commandLine memory = utf8 text ++ List.replicate trail 0

/-- Neither the command line nor its pointer and size. -/
def Elsewhere (address : UInt64) : Prop :=
  cmdlineMaxSize ≤ (address - cmdlineStart).toNat ∧
    4 ≤ (address - (zeroPageStart + 0x228)).toNat ∧ 4 ≤ (address - (zeroPageStart + 0x238)).toNat

/-- The command line with its size, a zero behind it and the pointer to it. -/
structure Recorded (before after : ByteMemory) (line : List Char) : Prop where
  text : commandLine after = utf8 line
  ended : after (cmdlineStart + UInt64.ofNat (utf8 line).length) = 0
  pointer : after.readUInt32 (zeroPageStart + 0x228) = cmdlineStart.toUInt32
  kept : ∀ address, Elsewhere address → after address = before address

theorem putCmdline_append {line : List UInt8} {index : Nat} (behind : line.length = index)
    (rest data : List UInt8) :
    putCmdline (line ++ rest) index data =
      if data.length ≤ rest.length then .ok (line ++ data ++ rest.drop data.length)
      else .error .panicked := by
  subst behind
  simp [putCmdline]

theorem putCmdline_text (line rest data : List UInt8) :
    (do
      let cmdline ← putCmdline (line ++ rest) line.length [0x20]
      let cmdline ← putCmdline cmdline (line.length + 1) data
      putCmdline cmdline (line.length + 1 + data.length) [0]) =
    if data.length + 2 ≤ rest.length then
      .ok (line ++ 0x20 :: data ++ 0 :: rest.drop (data.length + 2))
    else .error .panicked := by
  rw [putCmdline_append rfl]
  split_ifs with first fits fits
  · rw [Exec.ok_bind, putCmdline_append (by simp), if_pos (by simp; omega), Exec.ok_bind,
      putCmdline_append (by simp; omega), if_pos (by simp; omega)]
    simp
  · rw [Exec.ok_bind, putCmdline_append (by simp)]
    split_ifs
    · rw [Exec.ok_bind, putCmdline_append (by simp; omega), if_neg (by simp; omega)]
    · rfl
  · rw [List.length_singleton] at first
    omega
  · rfl

/-- The memory behind a call that leaves these bytes in the slice. -/
def written (memory : ByteMemory) (cmdline : List UInt8) (length : Nat) : ByteMemory :=
  ((memory.write cmdlineStart cmdline).write (zeroPageStart + 0x228)
      (littleEndian 4 cmdlineStart.toUInt32.toNat)).write
    (zeroPageStart + 0x238) (littleEndian 4 (UInt32.ofNat length).toNat)

variable {memory : ByteMemory} {text : List Char}

theorem recorded_written {line : List Char} {rest : List UInt8}
    (all : (utf8 line ++ 0 :: rest).length = cmdlineMaxSize) :
    Recorded memory (written memory (utf8 line ++ 0 :: rest) (utf8 line).length) line := by
  have outside (address : UInt64) (pointer : 4 ≤ (address - (zeroPageStart + 0x228)).toNat)
      (size : 4 ≤ (address - (zeroPageStart + 0x238)).toNat) :
      written memory (utf8 line ++ 0 :: rest) (utf8 line).length address =
        memory.write cmdlineStart (utf8 line ++ 0 :: rest) address :=
    (write_of_outside _ (by simpa using size)).trans (write_of_outside _ (by simpa using pointer))
  -- The zero page ends before the command line.
  have slice : (written memory (utf8 line ++ 0 :: rest) (utf8 line).length).bytes cmdlineStart
      cmdlineMaxSize = utf8 line ++ 0 :: rest := by
    rw [← all]
    refine (List.map_congr_left fun index member => ?_).trans
      (memory.bytes_write cmdlineStart (by rw [all]; decide))
    have distance (field : UInt64) (below : field.toNat + 4 ≤ 0x4b000) :
        4 ≤ (cmdlineStart + UInt64.ofNat index - field).toNat := by
      have start : cmdlineStart.toNat = 0x4b000 := rfl
      rw [List.mem_range, all, cmdlineMaxSize] at member
      rw [UInt64.toNat_sub, UInt64.toNat_add, UInt64.toNat_ofNat']
      omega
    exact outside _ (distance _ (by decide)) (distance _ (by decide))
  have room : (utf8 line).length < 0x10000 := by
    rw [List.length_append, List.length_cons, cmdlineMaxSize] at all
    omega
  have size : ((written memory (utf8 line ++ 0 :: rest) (utf8 line).length).readUInt32
      (zeroPageStart + 0x238)).toNat = (utf8 line).length := by
    rw [readUInt32, written, readNat_write _ _ _ (by decide), UInt32.toNat_ofNat',
      UInt32.toNat_ofNat']
    omega
  constructor
  · rw [commandLine, size, ← take_bytes _ _ (Nat.le_of_lt room), ← cmdlineMaxSize, slice,
      List.take_left]
  · have zero := congrArg (·[(utf8 line).length]?) slice
    simpa [bytes, cmdlineMaxSize, room] using zero
  · simp +decide [readUInt32, readNat, written, ByteMemory.write, littleEndian, zeroPageStart,
      cmdlineStart]
  · intro address elsewhere
    rw [outside address elsewhere.2.1 elsewhere.2.2]
    exact write_of_outside _ (all.symm ▸ elsewhere.1)

/-- A call returns if the recorded size is one of a slice and the line, a blank, the addition
and a zero find room. Then these are the command line, its size is recorded, and nothing else
has changed. Otherwise it panics. -/
theorem appendCommandline_exact (has : HasCommandLine memory text) (addition : List Char) :
    if (commandLine memory).length ≤ cmdlineMaxSize ∧
        (utf8 (text ++ ' ' :: addition)).length < cmdlineMaxSize then
      ∃ after, appendCommandline memory addition = .ok after ∧
        Recorded memory after (text ++ ' ' :: addition)
    else appendCommandline memory addition = .error .panicked := by
  have reads : MemoryRegion.readU32 ⟨zeroPageStart, 4096⟩ memory 0x238 =
      .ok (memory.readUInt32 (zeroPageStart + 0x238)) := rfl
  have recorded : (commandLine memory).length =
      (memory.readUInt32 (zeroPageStart + 0x238)).toNat := length_bytes _ _ _
  rw [appendCommandline, reads, Exec.ok_bind, length_bytes, recorded]
  by_cases size : (memory.readUInt32 (zeroPageStart + 0x238)).toNat ≤ cmdlineMaxSize
  swap
  · rw [if_pos (Nat.lt_of_not_le size), if_neg fun room => size room.1]
  rcases has.padded with ⟨trail, padded⟩
  have strips : Loader.asciiStrip (commandLine memory) = .ok text :=
    Loader.asciiStrip_eq_ok.mpr ⟨has.head, has.last, 0, trail, padded⟩
  rw [if_neg (Nat.not_lt.mpr size), take_bytes _ _ size, ← commandLine, strips, Exec.ok_bind]
  obtain ⟨rest, slice⟩ : ∃ rest, memory.bytes cmdlineStart cmdlineMaxSize = utf8 text ++ rest := by
    have split := (memory.bytes cmdlineStart cmdlineMaxSize).take_append_drop
      (memory.readUInt32 (zeroPageStart + 0x238)).toNat
    rw [take_bytes _ _ size, ← commandLine, padded, List.append_assoc] at split
    exact ⟨_, split.symm⟩
  have all := congrArg List.length slice
  rw [length_bytes, List.length_append] at all
  have whole : utf8 (text ++ ' ' :: addition) = utf8 text ++ 0x20 :: utf8 addition := by
    rw [utf8_append, utf8_cons]
    rfl
  have puts := congrArg (· >>= fun cmdline => Except.ok (written memory cmdline
    ((utf8 text).length + (utf8 addition).length + 1)))
    (putCmdline_text (utf8 text) rest (utf8 addition))
  simp only [bind_assoc, ← slice] at puts
  have room : (utf8 (text ++ ' ' :: addition)).length < cmdlineMaxSize ↔
      (utf8 addition).length + 2 ≤ rest.length := by
    rw [whole, List.length_append, List.length_cons]
    omega
  simp only [room, and_iff_right size]
  split_ifs at puts ⊢ with fits
  · refine ⟨_, puts, ?_⟩
    have ends := @recorded_written memory (text ++ ' ' :: addition)
      (rest.drop ((utf8 addition).length + 2)) (by
        rw [whole, List.length_append, List.length_append, List.length_cons, List.length_cons,
          List.length_drop]
        omega)
    rwa [whole, List.length_append, List.length_cons, ← Nat.add_assoc] at ends
  · exact puts

/-- The text `a` and two zeros. -/
def padded : ByteMemory := fun address =>
  if address = cmdlineStart then 0x61 else if address = zeroPageStart + 0x238 then 3 else 0

theorem appendCommandline_exact_padded :
    HasCommandLine padded ['a'] ∧
      ∃ after, appendCommandline padded "quiet".toList = .ok after ∧
        Recorded padded after "a quiet".toList := by
  have line : commandLine padded = [0x61, 0, 0] := by decide
  have has : HasCommandLine padded ['a'] := ⟨by decide, by decide, 2, line⟩
  refine ⟨has, ?_⟩
  have appended := appendCommandline_exact has "quiet".toList
  rw [if_pos ⟨by rw [line]; decide, by decide⟩] at appended
  exact appended

end HypervisorFirmware.BzImage
