import Mathlib.Algebra.GroupWithZero.Nat
import Mathlib.Algebra.Order.BigOperators.Group.List
import Mathlib.Algebra.Order.Group.Nat
import HypervisorFirmware.Efi.Types
import HypervisorFirmware.Fat.FileContents
import HypervisorFirmware.Fat.LongFile

/-! # Reading a file into a buffer

`read_file` of `efi/file.rs` fills a buffer of any length from a file that is
read sector by sector. What the buffer cuts off a sector is lost to the next
call. -/

namespace HypervisorFirmware.Efi

open Fat

variable {State : Type}

structure ReadProgress (State : Type) where
  file : File
  state : State
  bytesRemaining : Nat
  copied : List UInt8
  status : Status

def readFileBody (fs : Filesystem) (device : SectorDevice State)
    (progress : ReadProgress State) : Exec (ReadProgress State ⊕ ReadProgress State) :=
  if progress.bytesRemaining = 0 then .ok (.inr progress)
  else
    match progress.file.read fs device progress.state with
    | .error fault => .error fault
    | .ok (.ok (bytesRead, data), file, state) =>
      let canCopyBytes := min bytesRead.toNat progress.bytesRemaining
      .ok (.inl { progress with
        file := file
        state := state
        bytesRemaining := progress.bytesRemaining - canCopyBytes
        copied := progress.copied ++ data.toList.take canCopyBytes })
    | .ok (.error .endOfFile, file, state) =>
      .ok (.inr { progress with
        file := file
        state := state
        status := if progress.copied.length = 0 then .endOfFile else .success })
    | .ok (.error _, file, state) =>
      -- The loop goes on and reads again.
      .ok (.inl { progress with file := file, state := state, status := .deviceError })

def readFile (fs : Filesystem) (device : SectorDevice State) (fuel : Nat)
    (cursor : File × State) (length : Nat) :
    Exec (Except Status (List UInt8) × File × State) :=
  match Loop.run (readFileBody fs device) fuel ⟨cursor.1, cursor.2, length, [], .success⟩ with
  | .error fault => .error fault
  | .ok last =>
    .ok (if last.status.isError then .error last.status else .ok last.copied,
      last.file, last.state)

def deliveredBytes : Except Status (List UInt8) → List UInt8
  | .ok bytes => bytes
  | .error _ => []

/-- Successive calls with buffers of these lengths deliver the first bytes of the
file, without a gap. -/
def Contiguous (fs : Filesystem) (content : UInt64 → Sector) (start size : UInt32)
    (lengths : List Nat) : Prop :=
  ∃ enough, ∀ fuel ≥ enough, ∃ responses final,
    Machine.run (readFile fs (.reliable content) fuel) (getFile start size, ()) lengths =
      .ok (responses, final) ∧
    responses.flatMap deliveredBytes =
      fs.fileBytes content start 0 (min lengths.sum size.toNat)

/-- Every buffer fills whole sectors, unless it reaches the end of the file or no
buffer follows. -/
def SectorLengths (size : Nat) (lengths : List Nat) : Prop :=
  ∀ before length after, lengths = before ++ length :: after → after ≠ [] →
    before.sum + length < size → 512 ∣ length

/-! ## One call -/

def positionAfter (size position length : Nat) : Nat :=
  min size (position + 512 * ((length + 511) / 512))

section Reliable

variable {fs : Filesystem} {content : UInt64 → Sector} {start size : UInt32}

section

variable (fs : Filesystem) (content : UInt64 → Sector) (start size : UInt32) (position length : Nat)

structure Copying (progress : ReadProgress Unit) : Prop where
  coherent : progress.file.Coherent fs content start size
  succeeding : progress.status = .success
  further : position ≤ progress.file.position.toNat
  near : progress.file.position.toNat ≤ position + 512 * ((length + 511) / 512)
  copied : progress.copied =
    fs.fileBytes content start position (min length (progress.file.position.toNat - position))
  remaining : progress.bytesRemaining = length - (progress.file.position.toNat - position)

def Copied : Exec (ReadProgress Unit) → Prop
  | .error _ => False
  | .ok last =>
    last.file.Coherent fs content start size ∧
      last.file.position.toNat = positionAfter size.toNat position length ∧
      last.copied = fs.fileBytes content start position
        (min length (size.toNat - position)) ∧
      (last.status.isError = true → last.copied = [])

end

variable {position length : Nat} {progress : ReadProgress Unit}

theorem Copying.read {count : UInt32} {data : Sector} {next : File}
    (copying : Copying fs content start size position length progress)
    (unfilled : progress.bytesRemaining ≠ 0)
    (aligned : 512 ∣ position) (whole : 512 ∣ progress.file.position.toNat)
    (coherent : next.Coherent fs content start size)
    (delivers : File.Delivers fs content start size progress.file count data next) :
    Copying fs content start size position length
      { progress with
        file := next
        bytesRemaining := progress.bytesRemaining - min count.toNat progress.bytesRemaining
        copied := progress.copied ++
          data.toList.take (min count.toNat progress.bytesRemaining) } := by
  have further := copying.further
  have remaining := copying.remaining
  have counted := delivers.counted
  have moved := delivers.moved
  constructor
  · exact coherent
  · exact copying.succeeding
  · simp only [moved]
    omega
  · simp only [moved]
    omega
  · have sector : 512 * (progress.file.position.toNat / 512) =
        position + (progress.file.position.toNat - position) := by omega
    have before : min length (progress.file.position.toNat - position) =
        progress.file.position.toNat - position := by omega
    simp only [moved]
    rw [Filesystem.take_fileSector delivers.sector (by omega), copying.copied, sector, before,
      Filesystem.fileBytes_append]
    congr 1
    omega
  · simp only [moved]
    omega

theorem Copying.copied_of_filled (copying : Copying fs content start size position length progress)
    (filled : progress.bytesRemaining = 0)
    (aligned : position = size.toNat ∨ 512 ∣ position) :
    Copied fs content start size position length (.ok progress) := by
  have further := copying.further
  have near := copying.near
  have remaining := copying.remaining
  have inside := copying.coherent.inside
  have boundary := copying.coherent.boundary_or_end
  refine ⟨copying.coherent, ?_, ?_, ?_⟩
  · unfold positionAfter
    omega
  · rw [copying.copied]
    congr 1
    omega
  · rw [copying.succeeding]
    intro impossible
    cases impossible

theorem Copying.copied_of_ended (copying : Copying fs content start size position length progress)
    (ended : progress.file.position.toNat = size.toNat) :
    Copied fs content start size position length
      (.ok { progress with
        status := if progress.copied.length = 0 then .endOfFile else .success }) := by
  have near := copying.near
  refine ⟨copying.coherent, ?_, ?_, ?_⟩
  · unfold positionAfter
    simp only [ended] at near ⊢
    omega
  · rw [copying.copied, ended]
  · simp only
    split_ifs with empty
    · exact fun _ => List.length_eq_zero_iff.mp empty
    · intro impossible
      cases impossible

theorem readFileBody_copying (wellFormed : fs.WellFormed content start size)
    (small : size.toNat ≤ 2 ^ 32 - 512)
    (aligned : position = size.toNat ∨ 512 ∣ position)
    (copying : Copying fs content start size position length progress) :
    Loop.Iterated (Copying fs content start size position length) ReadProgress.bytesRemaining
      (Copied fs content start size position length) progress
      (readFileBody fs (.reliable content) progress) := by
  have further := copying.further
  have inside := copying.coherent.inside
  unfold readFileBody
  by_cases filled : progress.bytesRemaining = 0
  · rw [if_pos filled]
    exact copying.copied_of_filled filled aligned
  · rw [if_neg filled]
    by_cases before : progress.file.position.toNat < size.toNat
    · rcases File.read_reliable wellFormed.positive wellFormed.readable copying.coherent before with
        ⟨count, data, next, outcome⟩
      have read := File.Coherent.read wellFormed.positive small
        (show progress.file.Coherent fs (SectorDevice.reliable content).content start size
          from copying.coherent) outcome
      have delivers := read.2 count data rfl
      have counted := delivers.counted
      rw [outcome]
      refine ⟨copying.read filled (by omega) (copying.coherent.aligned before) read.1 delivers, ?_⟩
      simp only
      omega
    · have ended : progress.file.position.toNat = size.toNat := by omega
      rw [copying.coherent.read_atEnd (UInt32.toNat_inj.mp ended)]
      exact copying.copied_of_ended ended

theorem readFile_reliable {fuel : Nat} {file : File}
    (wellFormed : fs.WellFormed content start size) (small : size.toNat ≤ 2 ^ 32 - 512)
    (coherent : file.Coherent fs content start size) (enough : length < fuel) :
    ∃ response next,
      readFile fs (.reliable content) fuel (file, ()) length = .ok (response, next, ()) ∧
      next.Coherent fs content start size ∧
      next.position.toNat = positionAfter size.toNat file.position.toNat length ∧
      deliveredBytes response = fs.fileBytes content start file.position.toNat
        (min length (size.toNat - file.position.toNat)) := by
  have initially : Copying fs content start size file.position.toNat length
      ⟨file, (), length, [], .success⟩ := by
    refine ⟨coherent, rfl, Nat.le_refl _, Nat.le_add_right _ _, ?_, ?_⟩
    · simp
    · simp
  have copied : Copied fs content start size file.position.toNat length
      (Loop.run (readFileBody fs (.reliable content)) fuel ⟨file, (), length, [], .success⟩) := by
    apply Loop.run_of_measure (Copying fs content start size file.position.toNat length)
      ReadProgress.bytesRemaining _ _ fuel _ initially enough
    intro progress copying
    exact readFileBody_copying wellFormed small coherent.boundary_or_end copying
  unfold readFile
  cases ran : Loop.run (readFileBody fs (.reliable content)) fuel
      ⟨file, (), length, [], .success⟩ with
  | error fault =>
    rw [ran] at copied
    exact copied.elim
  | ok last =>
    rw [ran] at copied
    rcases copied with ⟨lastCoherent, moved, bytes, failed⟩
    refine ⟨_, last.file, rfl, lastCoherent, moved, ?_⟩
    split_ifs with error
    · rw [← bytes, failed error]
      rfl
    · exact bytes

/-! ## Successive calls -/

def delivered (fs : Filesystem) (content : UInt64 → Sector) (start : UInt32) (size : Nat) :
    Nat → List Nat → List UInt8
  | _, [] => []
  | position, length :: rest =>
    fs.fileBytes content start position (min length (size - position)) ++
      delivered fs content start size (positionAfter size position length) rest

theorem run_readFile {fuel : Nat} {lengths : List Nat} {file : File}
    (wellFormed : fs.WellFormed content start size) (small : size.toNat ≤ 2 ^ 32 - 512)
    (coherent : file.Coherent fs content start size)
    (enough : ∀ length ∈ lengths, length < fuel) :
    ∃ responses final,
      Machine.run (readFile fs (.reliable content) fuel) (file, ()) lengths =
        .ok (responses, final) ∧
      responses.flatMap deliveredBytes =
        delivered fs content start size.toNat file.position.toNat lengths := by
  induction lengths generalizing file with
  | nil => exact ⟨[], _, rfl, rfl⟩
  | cons length rest induction =>
    rcases readFile_reliable wellFormed small coherent (enough length List.mem_cons_self) with
      ⟨response, next, returned, nextCoherent, moved, bytes⟩
    rcases induction nextCoherent fun later member =>
        enough later (List.mem_cons_of_mem length member) with
      ⟨responses, final, ran, others⟩
    refine ⟨response :: responses, final, ?_, ?_⟩
    · simp [Machine.run, returned, ran]
    · rw [List.flatMap_cons, bytes, others, moved, delivered]

theorem contiguous_iff_delivered (wellFormed : fs.WellFormed content start size)
    (small : size.toNat ≤ 2 ^ 32 - 512) (lengths : List Nat) :
    Contiguous fs content start size lengths ↔
      delivered fs content start size.toNat 0 lengths =
        fs.fileBytes content start 0 (min lengths.sum size.toNat) := by
  have fresh : (getFile start size).Coherent fs content start size :=
    File.getFile_coherent content start size
  constructor
  · rintro ⟨enough, every⟩
    rcases every (enough + lengths.sum + 1) (by omega) with ⟨responses, final, ran, bytes⟩
    have bounded : ∀ length ∈ lengths, length < enough + lengths.sum + 1 := by
      intro length member
      have part := List.le_sum_of_mem member
      omega
    rcases run_readFile wellFormed small fresh bounded with ⟨responses', final', ran', bytes'⟩
    rw [ran, Except.ok.injEq, Prod.mk.injEq] at ran'
    rw [← bytes, ran'.1, bytes']
    rfl
  · intro equal
    refine ⟨lengths.sum + 1, fun fuel large => ?_⟩
    rcases run_readFile wellFormed small fresh (fun length member =>
        Nat.lt_of_le_of_lt (List.le_sum_of_mem member) large) with
      ⟨responses, final, ran, bytes⟩
    exact ⟨responses, final, ran, bytes.trans equal⟩

end Reliable

/-! ## Buffers that end between sectors -/

theorem sectorLengths_nil (size : Nat) : SectorLengths size [] := by
  intro before length after split
  simp at split

theorem sectorLengths_zero (lengths : List Nat) : SectorLengths 0 lengths := by
  intro before length after _ _ impossible
  exact absurd impossible (Nat.not_lt_zero _)

theorem sectorLengths_cons (size length : Nat) (rest : List Nat) :
    SectorLengths size (length :: rest) ↔
      (rest ≠ [] → length < size → 512 ∣ length) ∧ SectorLengths (size - length) rest := by
  constructor
  · intro sectors
    refine ⟨fun more inside => sectors [] length rest rfl more (by simpa using inside), ?_⟩
    intro before later after split more inside
    apply sectors (length :: before) later after (by rw [split]; rfl) more
    rw [List.sum_cons]
    omega
  · rintro ⟨first, others⟩ before later after split more inside
    cases before with
    | nil =>
      simp only [List.nil_append, List.cons.injEq] at split
      rw [← split.1]
      apply first
      · rwa [split.2]
      · simpa [split.1] using inside
    | cons head before =>
      simp only [List.cons_append, List.cons.injEq] at split
      apply others before later after split.2 more
      rw [List.sum_cons, ← split.1] at inside
      omega

variable {fs : Filesystem} {content : UInt64 → Sector} {start : UInt32} {size : Nat}

theorem delivered_end (lengths : List Nat) : delivered fs content start size size lengths = [] := by
  induction lengths with
  | nil => rfl
  | cons length rest induction =>
    have stays : positionAfter size size length = size := by
      unfold positionAfter
      omega
    rw [delivered, stays, induction]
    simp

variable {lengths : List Nat}

theorem delivered_of_sectorLengths {position : Nat}
    (aligned : position = size ∨ 512 ∣ position) (inside : position ≤ size)
    (sectors : SectorLengths (size - position) lengths) :
    delivered fs content start size position lengths =
      fs.fileBytes content start position (min lengths.sum (size - position)) := by
  induction lengths generalizing position with
  | nil => simp [delivered]
  | cons length rest induction =>
    rw [sectorLengths_cons] at sectors
    rw [delivered]
    by_cases last : rest = []
    · subst last
      simp [delivered]
    · by_cases reaches : size - position ≤ length
      · have ended : positionAfter size position length = size := by
          unfold positionAfter
          omega
        rw [ended, delivered_end, List.append_nil]
        congr 1
        rw [List.sum_cons]
        omega
      · have whole := sectors.1 last (by omega)
        have moved : positionAfter size position length = position + length := by
          unfold positionAfter
          omega
        have remaining : size - (position + length) = size - position - length := by omega
        rw [moved, induction (.inr (by omega)) (by omega) (remaining ▸ sectors.2),
          Nat.min_eq_left (by omega), Filesystem.fileBytes_append]
        congr 1
        rw [List.sum_cons]
        omega

theorem delivered_ne_of_gap {position next later : Nat} {rest : List Nat} (marked : ∀ index < size,
      fs.byteAt content start index = if 512 ∣ index then 1 else 0)
    (unaligned : ¬512 ∣ next) (before : next < size) (notEmpty : 1 ≤ later)
    (aligned : position = size ∨ 512 ∣ position) (inside : position ≤ size) :
    delivered fs content start size position (later :: rest) ≠
      fs.fileBytes content start next (min (later + rest.sum) (size - next)) := by
  intro equal
  have expected : 0 < min (later + rest.sum) (size - next) := by omega
  by_cases ended : position = size
  · rw [ended, delivered_end] at equal
    have lengths := congrArg List.length equal
    rw [Filesystem.length_fileBytes, List.length_nil] at lengths
    omega
  · have room : 0 < min later (size - position) := by omega
    have heads := congrArg List.head? equal
    rw [delivered, List.head?_append, Filesystem.head?_fileBytes room,
      Filesystem.head?_fileBytes expected, marked position (by omega), marked next before,
      if_pos (aligned.resolve_left ended), if_neg unaligned, Option.some_or] at heads
    exact absurd heads (by decide)

theorem sectorLengths_of_delivered {position : Nat} (marked : ∀ index < size,
      fs.byteAt content start index = if 512 ∣ index then 1 else 0)
    (notEmpty : ∀ length ∈ lengths, 1 ≤ length)
    (aligned : position = size ∨ 512 ∣ position) (inside : position ≤ size)
    (gapless : delivered fs content start size position lengths =
      fs.fileBytes content start position (min lengths.sum (size - position))) :
    SectorLengths (size - position) lengths := by
  induction lengths generalizing position with
  | nil => exact sectorLengths_nil _
  | cons length rest induction =>
    rw [sectorLengths_cons]
    by_cases reaches : size - position ≤ length
    · rw [Nat.sub_eq_zero_of_le reaches]
      exact ⟨fun _ short => absurd short (by omega), sectorLengths_zero rest⟩
    · have following : delivered fs content start size (positionAfter size position length)
          rest = fs.fileBytes content start (position + length)
            (min rest.sum (size - (position + length))) := by
        have total : min (length :: rest).sum (size - position) =
            length + min rest.sum (size - (position + length)) := by
          rw [List.sum_cons]
          omega
        rw [delivered, Nat.min_eq_left (by omega), total, ← Filesystem.fileBytes_append] at gapless
        exact List.append_cancel_left gapless
      have behind : positionAfter size position length = size ∨
          512 ∣ positionAfter size position length := by
        unfold positionAfter
        omega
      have within : positionAfter size position length ≤ size := Nat.min_le_left _ _
      cases rest with
      | nil => exact ⟨fun none => absurd rfl none, sectorLengths_nil _⟩
      | cons later tail =>
        have whole : 512 ∣ length := by
          by_contra cut
          exact delivered_ne_of_gap marked (by omega) (by omega)
            (notEmpty later (by simp)) behind within following
        have moved : positionAfter size position length = position + length := by
          unfold positionAfter
          omega
        rw [moved] at following behind within
        refine ⟨fun _ _ => whole, ?_⟩
        rw [Nat.sub_sub]
        exact induction (fun later member => notEmpty later (List.mem_cons_of_mem _ member))
          behind within following

/-- Successive reads deliver every file of this size without a gap exactly when the
buffers fill whole sectors. -/
theorem contiguous_iff_sectorLengths (size : UInt32) (small : size.toNat ≤ 2 ^ 32 - 512)
    (lengths : List Nat) (notEmpty : ∀ length ∈ lengths, 1 ≤ length) :
    (∀ fs content start, Filesystem.WellFormed fs content start size →
      Contiguous fs content start size lengths) ↔
      SectorLengths size.toNat lengths := by
  constructor
  · intro every
    have wellFormed := LongFile.wellFormed size small
    have marked : ∀ index < size.toNat,
        LongFile.volume.byteAt LongFile.content 2 index = if 512 ∣ index then 1 else 0 :=
      fun index inside => LongFile.byteAt_eq index (by omega)
    have gapless := every LongFile.volume LongFile.content 2 wellFormed
    rw [contiguous_iff_delivered wellFormed small] at gapless
    exact sectorLengths_of_delivered marked notEmpty (.inr (Nat.dvd_zero 512))
      (Nat.zero_le _) gapless
  · intro sectors fs content start wellFormed
    rw [contiguous_iff_delivered wellFormed small]
    exact delivered_of_sectorLengths (.inr (Nat.dvd_zero 512)) (Nat.zero_le _) sectors

/-- A file of 1000 bytes in two buffers. -/
theorem contiguous_iff_sectorLengths_two_buffers :
    (∀ fs content start, Filesystem.WellFormed fs content start 1000 →
      Contiguous fs content start 1000 [512, 100]) ↔
      SectorLengths 1000 [512, 100] :=
  contiguous_iff_sectorLengths 1000 (by decide) [512, 100] (by decide)

/-- Two buffers of one byte: the second receives the first byte of the second
sector. -/
theorem not_contiguous_single_bytes :
    LongFile.volume.WellFormed LongFile.content 2 1024 ∧
      ¬Contiguous LongFile.volume LongFile.content 2 1024 [1, 1] := by
  have wellFormed := LongFile.wellFormed 1024 (by decide)
  refine ⟨wellFormed, ?_⟩
  rw [contiguous_iff_delivered wellFormed (by decide)]
  intro gapless
  have sectors := sectorLengths_of_delivered
    (fun index inside => LongFile.byteAt_eq index (Nat.lt_trans inside (by decide)))
    (by decide) (.inr (Nat.dvd_zero 512)) (Nat.zero_le _) gapless
  exact absurd (sectors [] 1 [1] rfl (by simp) (by decide)) (by decide)

end HypervisorFirmware.Efi
