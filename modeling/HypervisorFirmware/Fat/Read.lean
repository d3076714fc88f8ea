import HypervisorFirmware.Fat.FileContents

/-! # Readers

The trait `Read` of `fat.rs`, through which the loaders see a file, and its one
implementation. -/

namespace HypervisorFirmware.Fat

/-- An object of the trait `Read`: the size, and the calls that take a buffer of 512 bytes
and a position. A call that fails leaves the buffer alone. -/
structure Read (State : Type) where
  size : UInt32
  read : State → Exec (Except Error (UInt32 × Sector) × State)
  seek : UInt32 → State → Exec (Except Error Unit × State)

/-- The state behind a number of reads that deliver. -/
inductive Read.After {State : Type} (file : Read State) (state : State) : Nat → State → Prop
  | start : file.After state 0 state
  | next {reads : Nat} {reached after : State} {count : UInt32} {data : Sector} :
      file.After state reads reached → file.read reached = .ok (.ok (count, data), after) →
      file.After state (reads + 1) after

/-- As many reads in a row deliver as the file has sectors. -/
def Read.Delivers {State : Type} (file : Read State) (state : State) : Prop :=
  ∀ reads reached, 512 * reads < file.size.toNat → file.After state reads reached →
    ∃ count data next, file.read reached = .ok (.ok (count, data), next)

namespace File

variable {State : Type} (fs : Filesystem) (device : SectorDevice State)

def asRead (size : UInt32) : Read (File × State) where
  size := size
  read cursor := cursor.1.read fs device cursor.2
  seek position cursor := File.seek fs device position cursor.1 cursor.2

variable {fs} {content : UInt64 → Sector} {start size : UInt32}

/-- A file whose sectors can all be read is a reader that delivers. -/
theorem asRead_delivers (wellFormed : fs.WellFormed content start size)
    (small : size.toNat ≤ 2 ^ 32 - 512) :
    (asRead fs (.reliable content) size).Delivers (getFile start size, ()) := by
  have stands : ∀ reads reached, (asRead fs (.reliable content) size).After
      (getFile start size, ()) reads reached → 512 * reads < size.toNat + 512 →
      reached.1.Coherent fs content start size ∧
        reached.1.position.toNat = min (512 * reads) size.toNat := by
    intro reads reached after
    induction after with
    | start => exact fun _ => ⟨getFile_coherent content start size, (Nat.zero_min _).symm⟩
    | @next reads reached later count data _ delivered induction =>
      intro few
      rcases induction (by omega) with ⟨coherent, position⟩
      have read := @Coherent.read _ _ (.reliable content) _ _ _ _ _ wellFormed.positive small
        coherent _ _ delivered
      have delivers := read.2 count data rfl
      have counted := delivers.counted
      have moved := delivers.moved
      exact ⟨read.1, by omega⟩
  intro reads reached before after
  change _ < size.toNat at before
  rcases stands reads reached after (by omega) with ⟨coherent, position⟩
  rcases read_reliable wellFormed.positive wellFormed.readable coherent (by omega) with
    ⟨count, data, next, outcome⟩
  exact ⟨count, data, (next, ()), outcome⟩

end File

end HypervisorFirmware.Fat
