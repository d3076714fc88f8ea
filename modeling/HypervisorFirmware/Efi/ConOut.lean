import Mathlib.Tactic.SplitIfs
import HypervisorFirmware.Efi.Types
import HypervisorFirmware.Foundation.Execution

/-! # The text console

`efi/conout.rs` and the calls of `efi/mod.rs` into it: output to the serial port, and the
mode record with the cursor. Output and `clear_screen` keep the cursor on the screen, but
`set_cursor_position` takes any position, and `set_mode` any mode that is negative once
it has been cut to 32 bits. -/

namespace HypervisorFirmware.Efi

/-! ## The source -/

structure SimpleTextOutputMode where
  maxMode : Int32
  mode : Int32
  attr : Int32
  cursorColumn : Int32
  cursorRow : Int32
  deriving DecidableEq

def stdoutMode : SimpleTextOutputMode where
  maxMode := 1
  mode := 0
  attr := 0
  cursorColumn := 0
  cursorRow := 0

/-- The mode record, and the bytes that were written to the port. -/
structure ConOut where
  port : List UInt8
  mode : SimpleTextOutputMode
  deriving DecidableEq

def outputEsc : Bool := false

def charBackspace : UInt8 := 0x08

def charLinefeed : UInt8 := 0x0a

def charCarriageReturn : UInt8 := 0x0d

def esc : UInt16 := 0x1b

def asI32 (value : UInt64) : Int32 := value.toInt64.toInt32

def SimpleTextOutputMode.maxRow (mode : SimpleTextOutputMode) : Int32 :=
  if mode.mode = 1 then 50 else 25

def SimpleTextOutputMode.advance (maxRow : Int32) (output : UInt8)
    (mode : SimpleTextOutputMode) : SimpleTextOutputMode :=
  if output = charBackspace then
    if mode.cursorColumn > 0 then { mode with cursorColumn := mode.cursorColumn - 1 } else mode
  else if output = charLinefeed then
    if mode.cursorRow < maxRow - 1 then { mode with cursorRow := mode.cursorRow + 1 } else mode
  else if output = charCarriageReturn then { mode with cursorColumn := 0 }
  else if mode.cursorColumn < 80 - 1 then { mode with cursorColumn := mode.cursorColumn + 1 }
  else if mode.cursorRow < maxRow - 1 then
    { mode with cursorColumn := 0, cursorRow := mode.cursorRow + 1 }
  else { mode with cursorColumn := 0 }

namespace ConOut

def writeByte (self : ConOut) (byte : UInt8) : ConOut := { self with port := self.port ++ [byte] }

def outputFrom (maxRow : Int32) : List UInt16 → ConOut → Exec ConOut
  | [], _ => .error .undefined
  | unit :: rest, self =>
    let output := (unit &&& 0xff).toUInt8
    if output = 0 then .ok self
    else
      let self := self.writeByte output
      outputFrom maxRow rest { self with mode := self.mode.advance maxRow output }

def outputString (self : ConOut) (message : List UInt16) : Exec ConOut :=
  outputFrom self.mode.maxRow message self

def digit (value : UInt64) : UInt16 := (0x30 + value).toUInt16

def setCursorPositionString (column row : UInt64) : List UInt16 :=
  [esc, 0x5b, digit ((row + 1) / 10), digit ((row + 1) % 10), 0x3b, digit ((column + 1) / 10),
    digit ((column + 1) % 10), 0x48, 0]

def setCursorPosition (self : ConOut) (column row : UInt64) : Exec ConOut := do
  let self ← if outputEsc then self.outputString (setCursorPositionString column row)
    else pure self
  let self :=
    { self with mode := { self.mode with cursorColumn := asI32 column, cursorRow := asI32 row } }
  return if column = 0 then self.writeByte charCarriageReturn else self

def foregroundControl (color : Nat) : UInt64 :=
  match color with
  | 0 => 30
  | 1 => 34
  | 2 => 32
  | 3 => 36
  | 4 => 31
  | 5 => 35
  | 6 => 33
  | _ => 37

def backgroundControl (color : Nat) : UInt64 :=
  match color with
  | 0 => 40
  | 1 => 44
  | 2 => 42
  | 3 => 46
  | 4 => 41
  | 5 => 45
  | 6 => 43
  | _ => 47

def setAttributeString (attr : UInt64) : List UInt16 :=
  let foreground := foregroundControl (attr &&& 0x7).toNat
  let bright := (attr >>> 3) &&& 1
  let background := backgroundControl ((attr >>> 4) &&& 0x7).toNat
  [esc, 0x5b, digit bright, 0x6d, esc, 0x5b, digit (foreground / 10), digit (foreground % 10),
    0x6d, esc, 0x5b, digit (background / 10), digit (background % 10), 0x6d, 0]

def setAttribute (self : ConOut) (attr : UInt64) : Exec ConOut :=
  if attr ||| 0x7f ≠ 0x7f then .ok self
  else if self.mode.attr = asI32 attr then .ok self
  else do
    let savedColumn := self.mode.cursorColumn
    let savedRow := self.mode.cursorRow
    let self ← if outputEsc then self.outputString (setAttributeString attr) else pure self
    return { self with
      mode := { self.mode with
        cursorColumn := savedColumn
        cursorRow := savedRow
        attr := asI32 attr } }

def clearScreen (self : ConOut) : Exec ConOut := do
  let self ← if outputEsc then self.outputString [esc, 0x5b, 0x32, 0x4a, 0] else pure self
  self.setCursorPosition 0 0

def setMode (self : ConOut) (modeNumber : UInt64) : Exec (Status × ConOut) :=
  if asI32 modeNumber > self.mode.maxMode then .ok (.unsupported, self)
  else do
    let self := { self with mode := { self.mode with mode := asI32 modeNumber } }
    let self ← self.clearScreen
    let self ← if outputEsc then self.outputString [esc, 0x5b, 0x3d, 0x33, 0x68, 0]
      else pure self
    let self := { self with mode := { self.mode with mode := asI32 modeNumber } }
    let self ← self.clearScreen
    return (.success, self)

end ConOut

/-! ## Calls -/

inductive ConsoleCall
  | outputString (message : List UInt16)
  | setMode (modeNumber : UInt64)
  | setAttribute (attr : UInt64)
  | clearScreen
  | setCursorPosition (column row : UInt64)

def consoleStep (console : ConOut) : ConsoleCall → Exec (Status × ConOut)
  | .outputString message => do return (.success, ← console.outputString (message ++ [0]))
  | .setMode modeNumber => console.setMode modeNumber
  | .setAttribute attr => do return (.success, ← console.setAttribute attr)
  | .clearScreen => do return (.success, ← console.clearScreen)
  | .setCursorPosition column row => do return (.success, ← console.setCursorPosition column row)

namespace ConOut

def initial : ConOut := ⟨[], stdoutMode⟩

structure Valid (console : ConOut) : Prop where
  mode : console.mode.mode = 0 ∨ console.mode.mode = 1
  column : 0 ≤ console.mode.cursorColumn ∧ console.mode.cursorColumn < 80
  row : 0 ≤ console.mode.cursorRow ∧ console.mode.cursorRow < console.mode.maxRow

def FailsUnchanged (console : ConOut) (call : ConsoleCall) : Prop :=
  ∀ modeNumber, call = .setMode modeNumber → ∀ status next,
    consoleStep console call = .ok (status, next) → status.isError = true → next = console

/-- A position to set is on the screen, and a mode to set is not negative, both as 32-bit
numbers with a sign. -/
def OnScreen (console : ConOut) : ConsoleCall → Prop
  | .setCursorPosition column row =>
    (0 ≤ asI32 column ∧ asI32 column < 80) ∧
      (0 ≤ asI32 row ∧ asI32 row < console.mode.maxRow)
  | .setMode modeNumber => 0 ≤ asI32 modeNumber
  | _ => True

end ConOut

/-! ## The cursor -/

theorem toInt_sub_one {value : Int32} (positive : 0 < value) :
    (value - 1).toInt = value.toInt - 1 := by
  have bound := value.toInt_lt
  rw [Int32.lt_iff_toInt_lt] at positive
  change 0 < value.toInt at positive
  rw [Int32.toInt_sub]
  change (value.toInt - 1).bmod (2 ^ 32) = _
  apply Int.bmod_eq_of_le_mul_two <;> omega

theorem toInt_add_one {value limit : Int32} (below : value < limit) :
    (value + 1).toInt = value.toInt + 1 := by
  have bound := limit.toInt_lt
  have low := value.le_toInt
  rw [Int32.lt_iff_toInt_lt] at below
  rw [Int32.toInt_add]
  change (value.toInt + 1).bmod (2 ^ 32) = _
  apply Int.bmod_eq_of_le_mul_two <;> omega

namespace SimpleTextOutputMode

structure Inside (maxRow : Int32) (mode : SimpleTextOutputMode) : Prop where
  column : 0 ≤ mode.cursorColumn ∧ mode.cursorColumn < 80
  row : 0 ≤ mode.cursorRow ∧ mode.cursorRow < maxRow

theorem maxRow_cases (mode : SimpleTextOutputMode) : mode.maxRow = 25 ∨ mode.maxRow = 50 := by
  rw [maxRow]
  split
  · exact Or.inr rfl
  · exact Or.inl rfl

theorem zero_lt_maxRow (mode : SimpleTextOutputMode) : 0 < mode.maxRow := by
  rcases mode.maxRow_cases with rows | rows
  · rw [rows]
    decide
  · rw [rows]
    decide

variable {mode : SimpleTextOutputMode}

theorem inside_iff {maxRow : Int32} :
    mode.Inside maxRow ↔ (0 ≤ mode.cursorColumn.toInt ∧ mode.cursorColumn.toInt < 80) ∧
      0 ≤ mode.cursorRow.toInt ∧ mode.cursorRow.toInt < maxRow.toInt := by
  constructor
  · intro inside
    have column := inside.column
    have row := inside.row
    simp only [Int32.le_iff_toInt_le, Int32.lt_iff_toInt_lt] at column row
    exact ⟨column, row⟩
  · rintro ⟨column, row⟩
    constructor
    · simp only [Int32.le_iff_toInt_le, Int32.lt_iff_toInt_lt]
      exact column
    · simp only [Int32.le_iff_toInt_le, Int32.lt_iff_toInt_lt]
      exact row

theorem Inside.advance {maxRow : Int32}
    (inside : mode.Inside maxRow) (positive : 0 < maxRow) (output : UInt8) :
    (mode.advance maxRow output).Inside maxRow := by
  have lastRow := toInt_sub_one positive
  have firstColumn : 0 ≤ (0 : Int32).toInt ∧ (0 : Int32).toInt < 80 := by decide
  rw [inside_iff] at inside ⊢
  unfold SimpleTextOutputMode.advance
  split
  · split
    · rename_i right
      have moved := toInt_sub_one right
      rw [gt_iff_lt, Int32.lt_iff_toInt_lt] at right
      simp only [moved]
      omega
    · exact inside
  · split
    · split
      · rename_i above
        have moved := toInt_add_one above
        rw [Int32.lt_iff_toInt_lt, lastRow] at above
        simp only [moved]
        omega
      · exact inside
    · split
      · exact ⟨firstColumn, inside.2⟩
      · split
        · rename_i left
          have moved := toInt_add_one left
          rw [Int32.lt_iff_toInt_lt] at left
          change mode.cursorColumn.toInt < 79 at left
          simp only [moved]
          omega
        · split
          · rename_i above
            have moved := toInt_add_one above
            rw [Int32.lt_iff_toInt_lt, lastRow] at above
            simp only [moved]
            exact ⟨firstColumn, by omega⟩
          · exact ⟨firstColumn, inside.2⟩

theorem advance_fixed (maxRow : Int32) (output : UInt8) (mode : SimpleTextOutputMode) :
    (mode.advance maxRow output).mode = mode.mode ∧
      (mode.advance maxRow output).maxMode = mode.maxMode := by
  unfold SimpleTextOutputMode.advance
  split_ifs <;> exact ⟨rfl, rfl⟩

end SimpleTextOutputMode

namespace ConOut

theorem valid_iff (console : ConOut) :
    console.Valid ↔ (console.mode.mode = 0 ∨ console.mode.mode = 1) ∧
      console.mode.Inside console.mode.maxRow := by
  constructor
  · intro valid
    exact ⟨valid.mode, valid.column, valid.row⟩
  · rintro ⟨mode, column, row⟩
    exact ⟨mode, column, row⟩

variable {console : ConOut}

/-- A string that is output keeps the cursor on the screen, and the mode. The induction is
on the units still to come. -/
theorem outputFrom_returns {maxRow : Int32} (positive : 0 < maxRow) (message : List UInt16)
    (inside : console.mode.Inside maxRow) :
    ∃ next, outputFrom maxRow (message ++ [0]) console = .ok next ∧ next.mode.Inside maxRow ∧
      next.mode.mode = console.mode.mode ∧ next.mode.maxMode = console.mode.maxMode := by
  induction message generalizing console with
  | nil => exact ⟨console, rfl, inside, rfl, rfl⟩
  | cons unit rest induction =>
    rw [List.cons_append, outputFrom]
    split
    · exact ⟨console, rfl, inside, rfl, rfl⟩
    · have fixed := console.mode.advance_fixed maxRow (unit &&& 0xff).toUInt8
      rw [← fixed.1, ← fixed.2]
      exact induction (inside.advance positive _)

/-! ## One call -/

def TwoModes (console : ConOut) : Prop := console.mode.maxMode = 1

def Exact (console : ConOut) (call : ConsoleCall) : Prop :=
  ∃ status next, consoleStep console call = .ok (status, next) ∧ next.TwoModes ∧
    (next.Valid ∧ console.FailsUnchanged call ↔ console.OnScreen call)

theorem failsUnchanged_of_other {call : ConsoleCall}
    (other : ∀ modeNumber, call ≠ .setMode modeNumber) : console.FailsUnchanged call :=
  fun modeNumber same => absurd same (other modeNumber)

theorem exact_outputString (twoModes : console.TwoModes)
    (valid : console.Valid) (message : List UInt16) : console.Exact (.outputString message) := by
  rw [valid_iff] at valid
  rcases outputFrom_returns console.mode.zero_lt_maxRow message valid.2 with
    ⟨next, returned, inside, sameMode, sameMax⟩
  have rows : next.mode.maxRow = console.mode.maxRow := by
    rw [SimpleTextOutputMode.maxRow, SimpleTextOutputMode.maxRow, sameMode]
  refine ⟨.success, next, ?_, sameMax.trans twoModes, ?_⟩
  · rw [consoleStep, outputString, returned]
    rfl
  · refine iff_of_true ⟨?_, failsUnchanged_of_other (by simp)⟩ trivial
    rw [valid_iff, sameMode, rows]
    exact ⟨valid.1, inside⟩

theorem setCursorPosition_mode (console : ConOut) (column row : UInt64) :
    ∃ next, console.setCursorPosition column row = .ok next ∧
      next.mode = { console.mode with cursorColumn := asI32 column, cursorRow := asI32 row } := by
  refine ⟨_, rfl, ?_⟩
  split <;> rfl

theorem exact_setCursorPosition (twoModes : console.TwoModes)
    (valid : console.Valid) (column row : UInt64) :
    console.Exact (.setCursorPosition column row) := by
  rcases console.setCursorPosition_mode column row with ⟨next, returned, moved⟩
  refine ⟨.success, next, ?_, ?_, ?_⟩
  · rw [consoleStep, returned]
    rfl
  · rw [TwoModes, moved]
    exact twoModes
  · have unchanged : console.FailsUnchanged (.setCursorPosition column row) :=
      failsUnchanged_of_other (by simp)
    rw [and_iff_left unchanged, valid_iff, moved]
    constructor
    · rintro ⟨_, inside⟩
      exact ⟨inside.column, inside.row⟩
    · rintro ⟨inColumns, inRows⟩
      exact ⟨valid.mode, inColumns, inRows⟩

theorem exact_setAttribute (twoModes : console.TwoModes)
    (valid : console.Valid) (attr : UInt64) : console.Exact (.setAttribute attr) := by
  have unchanged : console.FailsUnchanged (.setAttribute attr) := failsUnchanged_of_other (by simp)
  unfold Exact
  rw [consoleStep, setAttribute]
  split
  · exact ⟨.success, console, rfl, twoModes, iff_of_true ⟨valid, unchanged⟩ trivial⟩
  · split
    · exact ⟨.success, console, rfl, twoModes, iff_of_true ⟨valid, unchanged⟩ trivial⟩
    · refine ⟨.success, _, rfl, twoModes, iff_of_true ⟨?_, unchanged⟩ trivial⟩
      exact ⟨valid.mode, valid.column, valid.row⟩

theorem clearScreen_mode (console : ConOut) :
    ∃ next, console.clearScreen = .ok next ∧
      next.mode = { console.mode with cursorColumn := 0, cursorRow := 0 } :=
  ⟨_, rfl, rfl⟩

theorem inside_origin (mode : SimpleTextOutputMode) :
    SimpleTextOutputMode.Inside mode.maxRow { mode with cursorColumn := 0, cursorRow := 0 } := by
  have first : 0 ≤ (0 : Int32) ∧ (0 : Int32) < 80 := by decide
  exact ⟨first, first.1, mode.zero_lt_maxRow⟩

theorem exact_clearScreen (twoModes : console.TwoModes)
    (valid : console.Valid) : console.Exact .clearScreen := by
  rcases console.clearScreen_mode with ⟨next, returned, cleared⟩
  refine ⟨.success, next, ?_, ?_, ?_⟩
  · rw [consoleStep, returned]
    rfl
  · rw [TwoModes, cleared]
    exact twoModes
  · refine iff_of_true ⟨?_, failsUnchanged_of_other (by simp)⟩ trivial
    rw [valid_iff, cleared]
    exact ⟨valid.mode, inside_origin console.mode⟩

theorem setMode_mode {modeNumber : UInt64} (known : ¬ asI32 modeNumber > console.mode.maxMode) :
    ∃ next, console.setMode modeNumber = .ok (.success, next) ∧
      next.mode = { console.mode with
        mode := asI32 modeNumber, cursorColumn := 0, cursorRow := 0 } := by
  rw [setMode, if_neg known]
  exact ⟨_, rfl, rfl⟩

theorem mode_cases {number : Int32} (known : ¬ number > 1) :
    (number = 0 ∨ number = 1) ↔ 0 ≤ number := by
  rw [gt_iff_lt, Int32.not_lt, Int32.le_iff_toInt_le] at known
  rw [← Int32.toInt_inj, ← Int32.toInt_inj, Int32.le_iff_toInt_le]
  change number.toInt ≤ 1 at known
  change (number.toInt = 0 ∨ number.toInt = 1) ↔ 0 ≤ number.toInt
  omega

theorem exact_setMode (twoModes : console.TwoModes) (valid : console.Valid)
    (modeNumber : UInt64) : console.Exact (.setMode modeNumber) := by
  by_cases unknown : asI32 modeNumber > console.mode.maxMode
  · -- The call fails, and the console stays as it is.
    have failed : consoleStep console (.setMode modeNumber) = .ok (.unsupported, console) := by
      rw [consoleStep, setMode, if_pos unknown]
    refine ⟨.unsupported, console, failed, twoModes, iff_of_true ⟨valid, ?_⟩ ?_⟩
    · intro _ _ status next returned _
      rw [failed, Except.ok.injEq, Prod.mk.injEq] at returned
      exact returned.2.symm
    · rw [twoModes] at unknown
      exact Int32.le_trans (by decide) (Int32.le_of_lt unknown)
  · rcases setMode_mode unknown with ⟨next, returned, set⟩
    have succeeded : consoleStep console (.setMode modeNumber) = .ok (.success, next) := returned
    have unchanged : console.FailsUnchanged (.setMode modeNumber) := by
      intro _ _ status after returned' failed
      rw [succeeded, Except.ok.injEq, Prod.mk.injEq] at returned'
      rw [← returned'.1] at failed
      cases failed
    refine ⟨.success, next, succeeded, ?_, ?_⟩
    · rw [TwoModes, set]
      exact twoModes
    · rw [twoModes] at unknown
      rw [and_iff_left unchanged, valid_iff, set, OnScreen, ← mode_cases unknown]
      exact and_iff_left (inside_origin { console.mode with mode := asI32 modeNumber })

theorem exact_call (twoModes : console.TwoModes) (valid : console.Valid)
    (call : ConsoleCall) : console.Exact call := by
  cases call with
  | outputString message => exact exact_outputString twoModes valid message
  | setMode modeNumber => exact exact_setMode twoModes valid modeNumber
  | setAttribute attr => exact exact_setAttribute twoModes valid attr
  | clearScreen => exact exact_clearScreen twoModes valid
  | setCursorPosition column row => exact exact_setCursorPosition twoModes valid column row

/-! ## Runs -/

theorem valid_initial : initial.Valid where
  mode := Or.inl rfl
  column := by decide
  row := by decide

theorem valid_iff_onScreen (calls : List ConsoleCall) :
    Machine.Always consoleStep Valid initial calls ∧
        Machine.EveryStep consoleStep FailsUnchanged initial calls ↔
      Machine.EveryStep consoleStep OnScreen initial calls := by
  apply Machine.always_and_everyStep_iff TwoModes Valid (fun _ _ => True)
  · intro console call twoModes valid _
    exact exact_call twoModes valid call
  · exact rfl
  · exact valid_initial
  · exact Machine.everyStep_of_forall (fun _ _ => trivial) initial

/-- The cursor is put behind the last column. -/
theorem not_valid_column_eighty :
    ¬ Machine.Always consoleStep Valid initial [.setCursorPosition 80 0] := by
  rintro ⟨_, status, next, stepped, valid⟩
  have position : consoleStep initial (.setCursorPosition 80 0) =
      .ok (.success, ⟨[], { stdoutMode with cursorColumn := 80 }⟩) := by decide
  rw [position, Except.ok.injEq, Prod.mk.injEq] at stepped
  have column := valid.column.2
  rw [← stepped.2] at column
  revert column
  decide

end ConOut

end HypervisorFirmware.Efi
