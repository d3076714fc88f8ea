import HypervisorFirmware.Efi.ReadFile

/-! # Errors while a file is read

`read_file` reads again after an error. It ends only if the reads go on to fill the
buffer or come to the end of the file, and then the end of the file covers the error. -/

namespace HypervisorFirmware.Efi

open Fat

variable {State : Type} {fs : Filesystem} {device : SectorDevice State}

abbrev ReadOutcome := Except Error (List UInt8)

inductive FileReads (fs : Filesystem) (device : SectorDevice State) :
    File × State → List ReadOutcome → Prop
  | nil {cursor : File × State} : FileReads fs device cursor []
  | bytes {cursor next : File × State} {count : UInt32} {data : Sector}
      {outcomes : List ReadOutcome} :
      cursor.1.read fs device cursor.2 = .ok (.ok (count, data), next) →
      FileReads fs device next outcomes →
      FileReads fs device cursor (.ok (data.toList.take count.toNat) :: outcomes)
  | failed {cursor next : File × State} {error : Error} {outcomes : List ReadOutcome} :
      cursor.1.read fs device cursor.2 = .ok (.error error, next) →
      FileReads fs device next outcomes →
      FileReads fs device cursor (.error error :: outcomes)

def Completes : Nat → List ReadOutcome → Prop
  | 0, outcomes => outcomes = []
  | _ + 1, [] => False
  | remaining + 1, .ok bytes :: rest => Completes (remaining + 1 - bytes.length) rest
  | _ + 1, .error .endOfFile :: rest => rest = []
  | remaining + 1, .error _ :: rest => Completes (remaining + 1) rest

def readBytes : List ReadOutcome → List UInt8
  | [] => []
  | .ok bytes :: rest => bytes ++ readBytes rest
  | .error _ :: rest => readBytes rest

def totalRead (outcomes : List ReadOutcome) : Nat := (readBytes outcomes).length

def ReadFails (outcomes : List ReadOutcome) : Prop :=
  ∃ error, .error error ∈ outcomes ∧ error ≠ .endOfFile

def MeetsError (fs : Filesystem) (device : SectorDevice State)
    (progress : ReadProgress State) : Prop :=
  ∃ reached error next, Loop.Visits (readFileBody fs device) progress reached ∧
    reached.bytesRemaining ≠ 0 ∧
    reached.file.read fs device reached.state = .ok (.error error, next) ∧ error ≠ .endOfFile

/-- `read_file` returns: an error if a read has failed before the end of the file, and
otherwise the bytes of the reads, as many as the buffer takes. -/
def ReportsErrors (fs : Filesystem) (device : SectorDevice State) (file : File) (state : State)
    (length : Nat) : Prop :=
  ∃ enough, ∀ fuel ≥ enough, ∃ result next,
    readFile fs device fuel (file, state) length = .ok (result, next) ∧
    (MeetsError fs device ⟨file, state, length, [], .success⟩ → ∃ status, result = .error status) ∧
    (¬MeetsError fs device ⟨file, state, length, [], .success⟩ →
      ∃ outcomes, FileReads fs device (file, state) outcomes ∧ Completes length outcomes ∧
        result = .ok ((readBytes outcomes).take length))

/-! ## Every read makes progress -/

theorem followChain_position {file next : File} {state after : State}
    (followed : file.followChain fs device state = .ok (.ok next, after)) :
    next.position = file.position ∧ next.size = file.size := by
  unfold File.followChain at followed
  split at followed
  · split at followed
    · cases followed
    · cases followed
    · cases followed
      exact ⟨rfl, rfl⟩
  · cases followed
    exact ⟨rfl, rfl⟩

section

variable {file : File} {state : State} {count : UInt32} {data : Sector} {next : File × State}
  (delivered : file.read fs device state = .ok (.ok (count, data), next))

include delivered

theorem read_count : 1 ≤ count.toNat ∧ count.toNat ≤ 512 := by
  unfold File.read at delivered
  split at delivered
  · cases delivered
  · rename_i unfinished
    have before : file.position.toNat < file.size.toNat :=
      UInt32.lt_iff_toNat_lt.mp (UInt32.not_le.mp unfinished)
    split at delivered
    · cases delivered
    · cases delivered
    · rename_i moved _ followed
      rcases followChain_position followed with ⟨position, size⟩
      simp only at delivered
      split at delivered
      · cases delivered
      · split at delivered
        · rename_i short
          rw [gt_iff_lt, UInt32.lt_iff_toNat_lt, UInt32.toNat_add, File.toNat_512, position,
            size] at short
          simp only [Except.ok.injEq, Prod.mk.injEq] at delivered
          rw [← delivered.1.1, position, size,
            UInt32.toNat_sub_of_le _ _ (UInt32.le_iff_toNat_le.mpr (Nat.le_of_lt before))]
          omega
        · simp only [Except.ok.injEq, Prod.mk.injEq] at delivered
          rw [← delivered.1.1, File.toNat_512]
          omega

theorem length_read : (data.toList.take count.toNat).length = count.toNat := by
  rw [List.length_take, Vector.length_toList, Nat.min_eq_left (read_count delivered).2]

end

/-! ## One iteration -/

variable {progress : ReadProgress State}

theorem body_filled (filled : progress.bytesRemaining = 0) :
    readFileBody fs device progress = .ok (.inr progress) := by
  rw [readFileBody, if_pos filled]

def ReadProgress.advanced (progress : ReadProgress State) (next : File × State) (count : UInt32)
    (data : Sector) : ReadProgress State :=
  let copied := min count.toNat progress.bytesRemaining
  { progress with
    file := next.1
    state := next.2
    bytesRemaining := progress.bytesRemaining - copied
    copied := progress.copied ++ data.toList.take copied }

theorem body_bytes (unfilled : progress.bytesRemaining ≠ 0) {count : UInt32} {data : Sector}
    {next : File × State}
    (read : progress.file.read fs device progress.state = .ok (.ok (count, data), next)) :
    readFileBody fs device progress = .ok (.inl (progress.advanced next count data)) := by
  rw [readFileBody, if_neg unfilled, read]
  rfl

theorem body_ended (unfilled : progress.bytesRemaining ≠ 0) {next : File × State}
    (read : progress.file.read fs device progress.state = .ok (.error .endOfFile, next)) :
    readFileBody fs device progress =
      .ok (.inr { progress with
        file := next.1
        state := next.2
        status := if progress.copied.length = 0 then .endOfFile else .success }) := by
  rw [readFileBody, if_neg unfilled, read]

theorem body_failed (unfilled : progress.bytesRemaining ≠ 0) {error : Error} {next : File × State}
    (read : progress.file.read fs device progress.state = .ok (.error error, next))
    (notEnd : error ≠ .endOfFile) :
    readFileBody fs device progress =
      .ok (.inl { progress with file := next.1, state := next.2, status := .deviceError }) := by
  rw [readFileBody, if_neg unfilled, read]
  cases error with
  | endOfFile => exact absurd rfl notEnd
  | blockError => rfl
  | unsupported => rfl
  | notFound => rfl
  | invalidOffset => rfl

theorem completes_failed {error : Error} (notEnd : error ≠ .endOfFile) (remaining : Nat)
    (rest : List ReadOutcome) :
    Completes (remaining + 1) (.error error :: rest) ↔ Completes (remaining + 1) rest := by
  cases error with
  | endOfFile => exact absurd rfl notEnd
  | blockError => rfl
  | unsupported => rfl
  | notFound => rfl
  | invalidOffset => rfl

theorem sub_min_right (count remaining : Nat) :
    remaining - min count remaining = remaining - count := by omega

theorem readFails_bytes (bytes : List UInt8) (outcomes : List ReadOutcome) :
    ReadFails (.ok bytes :: outcomes) ↔ ReadFails outcomes := by
  simp [ReadFails]

theorem readFails_failed {error : Error} (notEnd : error ≠ .endOfFile)
    (outcomes : List ReadOutcome) : ReadFails (.error error :: outcomes) :=
  ⟨error, List.mem_cons_self, notEnd⟩

theorem meetsError_iff :
    MeetsError fs device progress ↔
      (∃ error next, progress.bytesRemaining ≠ 0 ∧
        progress.file.read fs device progress.state = .ok (.error error, next) ∧
        error ≠ .endOfFile) ∨
      ∃ next, readFileBody fs device progress = .ok (.inl next) ∧ MeetsError fs device next := by
  constructor
  · rintro ⟨reached, error, next, visits, unfilled, read, notEnd⟩
    rcases visits.cases_start with rfl | ⟨later, once, visits⟩
    · exact .inl ⟨error, next, unfilled, read, notEnd⟩
    · exact .inr ⟨later, once, reached, error, next, visits, unfilled, read, notEnd⟩
  · rintro (⟨error, next, unfilled, read, notEnd⟩ |
      ⟨later, once, reached, error, next, visits, unfilled, read, notEnd⟩)
    · exact ⟨progress, error, next, .start, unfilled, read, notEnd⟩
    · exact ⟨reached, error, next, visits.after once, unfilled, read, notEnd⟩

/-! ## Whole runs -/

theorem outcomes_of_run {fuel : Nat} {last : ReadProgress State}
    (ran : Loop.run (readFileBody fs device) fuel progress = .ok last) :
    ∃ outcomes, FileReads fs device (progress.file, progress.state) outcomes ∧
      Completes progress.bytesRemaining outcomes := by
  induction fuel generalizing progress with
  | zero => cases ran
  | succ fuel induction =>
    rw [Loop.run] at ran
    cases remaining : progress.bytesRemaining with
    | zero => exact ⟨[], .nil, rfl⟩
    | succ bytes =>
      have unfilled : progress.bytesRemaining ≠ 0 := by omega
      cases read : progress.file.read fs device progress.state with
      | error fault =>
        rw [readFileBody, if_neg unfilled, read] at ran
        cases ran
      | ok outcome =>
        rcases outcome with ⟨result, next⟩
        cases result with
        | ok delivered =>
          rw [body_bytes unfilled read] at ran
          rcases induction ran with ⟨outcomes, reads, completes⟩
          refine ⟨_, .bytes read reads, ?_⟩
          rw [Completes, length_read read, ← remaining, ← sub_min_right]
          exact completes
        | error error =>
          by_cases ended : error = .endOfFile
          · subst ended
            exact ⟨_, .failed read .nil, rfl⟩
          · rw [body_failed unfilled read ended] at ran
            rcases induction ran with ⟨outcomes, reads, completes⟩
            refine ⟨_, .failed read reads, ?_⟩
            rw [completes_failed ended, ← remaining]
            exact completes

def EndsWith (status : Status) (remaining before : Nat) (outcomes : List ReadOutcome)
    (final : Status) : Prop :=
  if remaining ≤ totalRead outcomes then
    (ReadFails outcomes → final = .deviceError) ∧ (¬ReadFails outcomes → final = status)
  else final = if before + totalRead outcomes = 0 then .endOfFile else .success

theorem totalRead_bytes (bytes : List UInt8) (outcomes : List ReadOutcome) :
    totalRead (.ok bytes :: outcomes) = bytes.length + totalRead outcomes := List.length_append

theorem EndsWith.bytes {status final : Status} {remaining before : Nat} {bytes : List UInt8}
    {outcomes : List ReadOutcome} (positive : 1 ≤ bytes.length) (unfilled : remaining ≠ 0)
    (ends : EndsWith status (remaining - bytes.length) (before + min bytes.length remaining)
      outcomes final) :
    EndsWith status remaining before (.ok bytes :: outcomes) final := by
  have filled : remaining ≤ totalRead (.ok bytes :: outcomes) ↔
      remaining - bytes.length ≤ totalRead outcomes := by
    rw [totalRead_bytes]
    omega
  have nothing : before + totalRead (.ok bytes :: outcomes) = 0 ↔
      before + min bytes.length remaining + totalRead outcomes = 0 := by
    rw [totalRead_bytes]
    omega
  simpa only [EndsWith, filled, nothing, readFails_bytes] using ends

theorem EndsWith.failed {status final : Status} {error : Error} {remaining before : Nat}
    {outcomes : List ReadOutcome} (notEnd : error ≠ .endOfFile)
    (ends : EndsWith .deviceError remaining before outcomes final) :
    EndsWith status remaining before (.error error :: outcomes) final := by
  rw [EndsWith] at ends ⊢
  rw [totalRead, readBytes, ← totalRead]
  split_ifs at ends ⊢ with filled nothing
  · refine ⟨fun _ => ?_, fun without => absurd (readFails_failed notEnd outcomes) without⟩
    by_cases fails : ReadFails outcomes
    · exact ends.1 fails
    · exact ends.2 fails
  · exact ends
  · exact ends

structure Along (fs : Filesystem) (device : SectorDevice State) (progress : ReadProgress State)
    (outcomes : List ReadOutcome) (last : ReadProgress State) : Prop where
  reaches : ∃ reached, Loop.Visits (readFileBody fs device) progress reached ∧
    readFileBody fs device reached = .ok (.inr last)
  ends : EndsWith progress.status progress.bytesRemaining progress.copied.length outcomes
    last.status
  meets : MeetsError fs device progress ↔ ReadFails outcomes
  copied : last.copied =
    progress.copied ++ (readBytes outcomes).take progress.bytesRemaining

theorem Along.settles {outcomes : List ReadOutcome} {last : ReadProgress State}
    (along : Along fs device progress outcomes last) :
    ∃ enough, ∀ fuel, enough ≤ fuel →
      Loop.run (readFileBody fs device) fuel progress = .ok last := by
  rcases along.reaches with ⟨reached, visits, stops⟩
  exact visits.ends (.ok last) stops

theorem Along.filled (filled : progress.bytesRemaining = 0) :
    Along fs device progress [] progress := by
  have none : ¬ReadFails [] := by simp [ReadFails]
  refine ⟨⟨progress, .start, body_filled filled⟩, ?_, ?_, by simp [readBytes]⟩
  · rw [EndsWith, filled, if_pos (Nat.zero_le _)]
    exact ⟨fun fails => absurd fails none, fun _ => rfl⟩
  · rw [meetsError_iff, body_filled filled]
    simp [filled, none]

theorem Along.ended (unfilled : progress.bytesRemaining ≠ 0) {next : File × State}
    (read : progress.file.read fs device progress.state = .ok (.error .endOfFile, next)) :
    ∃ last, Along fs device progress [.error .endOfFile] last := by
  have once := body_ended unfilled read
  refine ⟨_, ⟨progress, .start, once⟩, ?_, ?_, by simp [readBytes]⟩
  · simp [EndsWith, totalRead, readBytes, unfilled]
  · rw [meetsError_iff, once]
    simp [read, ReadFails]

theorem Along.bytes (unfilled : progress.bytesRemaining ≠ 0) {count : UInt32} {data : Sector}
    {next : File × State} {outcomes : List ReadOutcome} {last : ReadProgress State}
    (read : progress.file.read fs device progress.state = .ok (.ok (count, data), next))
    (along : Along fs device (progress.advanced next count data) outcomes last) :
    Along fs device progress (.ok (data.toList.take count.toNat) :: outcomes) last := by
  have once := body_bytes unfilled read
  have counted := read_count read
  rcases along with ⟨⟨reached, visits, stops⟩, ends, meets, copied⟩
  refine ⟨⟨reached, visits.after once, stops⟩, ?_, ?_, ?_⟩
  · apply EndsWith.bytes (by rw [length_read read]; exact counted.1) unfilled
    rw [length_read read, ← sub_min_right]
    simpa [ReadProgress.advanced, Nat.min_eq_left (Nat.le_trans (Nat.min_le_left _ _) counted.2)]
      using ends
  · rw [meetsError_iff, once, readFails_bytes, ← meets]
    simp [read]
  · rw [copied, ReadProgress.advanced, readBytes, List.take_append, length_read read,
      List.take_take, sub_min_right, Nat.min_comm, List.append_assoc]

theorem Along.failed (unfilled : progress.bytesRemaining ≠ 0) {error : Error}
    {next : File × State} {outcomes : List ReadOutcome} {last : ReadProgress State}
    (read : progress.file.read fs device progress.state = .ok (.error error, next))
    (notEnd : error ≠ .endOfFile)
    (along : Along fs device
      { progress with file := next.1, state := next.2, status := .deviceError } outcomes last) :
    Along fs device progress (.error error :: outcomes) last := by
  rcases along with ⟨⟨reached, visits, stops⟩, ends, _, copied⟩
  refine ⟨⟨reached, visits.after (body_failed unfilled read notEnd), stops⟩, ends.failed notEnd, ?_,
    copied⟩
  refine iff_of_true ?_ (readFails_failed notEnd outcomes)
  rw [meetsError_iff]
  exact .inl ⟨error, next, unfilled, read, notEnd⟩

theorem exists_along {outcomes : List ReadOutcome}
    (reads : FileReads fs device (progress.file, progress.state) outcomes)
    (completes : Completes progress.bytesRemaining outcomes) :
    ∃ last, Along fs device progress outcomes last := by
  induction outcomes generalizing progress with
  | nil =>
    cases remaining : progress.bytesRemaining with
    | zero => exact ⟨progress, .filled remaining⟩
    | succ bytes =>
      rw [remaining] at completes
      exact completes.elim
  | cons outcome rest induction =>
    cases remaining : progress.bytesRemaining with
    | zero =>
      rw [remaining] at completes
      cases completes
    | succ bytes =>
      have unfilled : progress.bytesRemaining ≠ 0 := by omega
      rw [remaining] at completes
      cases reads with
      | @bytes _ next count data _ read later =>
        rw [Completes, length_read read, ← remaining, ← sub_min_right] at completes
        rcases @induction (progress.advanced next count data) later completes with ⟨last, along⟩
        exact ⟨last, along.bytes unfilled read⟩
      | @failed _ next error _ read later =>
        by_cases ended : error = .endOfFile
        · subst ended
          have finished : rest = [] := completes
          subst finished
          exact Along.ended unfilled read
        · rw [completes_failed ended, ← remaining] at completes
          rcases @induction
            { progress with file := next.1, state := next.2, status := .deviceError }
            later completes with ⟨last, along⟩
          exact ⟨last, along.failed unfilled read ended⟩

theorem reports_iff {length : Nat} {outcomes : List ReadOutcome} {last : ReadProgress State}
    (ends : EndsWith .success length 0 outcomes last.status) :
    ((ReadFails outcomes → ∃ status,
        (if last.status.isError then .error last.status else .ok last.copied :
          Except Status (List UInt8)) = .error status) ∧
      (¬ReadFails outcomes → ∃ bytes,
        (if last.status.isError then .error last.status else .ok last.copied :
          Except Status (List UInt8)) = .ok bytes)) ↔
      length ≤ totalRead outcomes ∨ (ReadFails outcomes ↔ totalRead outcomes = 0) := by
  rw [EndsWith, Nat.zero_add] at ends
  split_ifs at ends with filled nothing
  · refine iff_of_true ⟨?_, ?_⟩ (.inl filled)
    · intro fails
      rw [ends.1 fails]
      exact ⟨_, rfl⟩
    · intro succeeds
      rw [ends.2 succeeds]
      exact ⟨_, rfl⟩
  · rw [ends, or_iff_right filled]
    simp [nothing, Status.isError]
  · rw [ends, or_iff_right filled]
    simp [nothing, Status.isError]

/-- `read_file` returns, with an error exactly if a read has failed, if and only if its
reads come to an end and fill the buffer, or nothing is read exactly if one of them
fails. -/
theorem reportsErrors_iff_completes (fs : Filesystem) (device : SectorDevice State)
    (file : File) (state : State) (length : Nat) :
    ReportsErrors fs device file state length ↔
      ∃ outcomes, FileReads fs device (file, state) outcomes ∧ Completes length outcomes ∧
        (length ≤ totalRead outcomes ∨ (ReadFails outcomes ↔ totalRead outcomes = 0)) := by
  constructor
  · rintro ⟨enough, every⟩
    rcases every enough (Nat.le_refl _) with ⟨result, next, returned, errors, succeeds⟩
    rw [readFile] at returned
    cases ran : Loop.run (readFileBody fs device) enough ⟨file, state, length, [], .success⟩ with
    | error fault => simp [ran] at returned
    | ok last =>
      rcases outcomes_of_run ran with ⟨outcomes, reads, completes⟩
      refine ⟨outcomes, reads, completes, ?_⟩
      rcases exists_along reads completes with ⟨last', along⟩
      rcases along.settles with ⟨enough', ran'⟩
      have same := Loop.run_mono (Nat.le_max_left enough enough') ran
      rw [ran' _ (Nat.le_max_right enough enough'), Except.ok.injEq] at same
      have ends := along.ends
      simp only [ran, Except.ok.injEq, Prod.mk.injEq] at returned
      rw [same] at ends
      rw [← returned.1, along.meets] at errors succeeds
      refine (reports_iff ends).mp ⟨errors, fun without => ?_⟩
      rcases succeeds without with ⟨_, _, _, delivered⟩
      exact ⟨_, delivered⟩
  · rintro ⟨outcomes, reads, completes, condition⟩
    rcases @exists_along _ _ _ ⟨file, state, length, [], .success⟩ outcomes reads completes with
      ⟨last, along⟩
    rcases along.settles with ⟨enough, ran⟩
    refine ⟨enough, fun fuel many => ?_⟩
    refine ⟨_, (last.file, last.state), by rw [readFile, ran fuel many], ?_⟩
    rw [along.meets]
    rcases (reports_iff along.ends).mpr condition with ⟨errors, succeeds⟩
    refine ⟨errors, fun without => ⟨outcomes, reads, completes, ?_⟩⟩
    rcases succeeds without with ⟨bytes, delivered⟩
    rw [along.copied] at delivered ⊢
    split_ifs at delivered ⊢
    rfl

def broken : SectorDevice Unit where
  content _ := Vector.replicate 512 0
  fails _ _ := (true, ())

/-- On a broken device `read_file` never returns. -/
theorem not_reportsErrors_broken_device :
    ¬ReportsErrors File.smallVolume broken (getFile 2 1000) () 512 := by
  rintro ⟨enough, every⟩
  rcases every enough (Nat.le_refl _) with ⟨result, next, returned, _⟩
  rw [readFile] at returned
  cases ran : Loop.run (readFileBody File.smallVolume broken) enough
      ⟨getFile 2 1000, (), 512, [], .success⟩ with
  | error fault => simp [ran] at returned
  | ok last =>
    rcases outcomes_of_run ran with ⟨outcomes, reads, completes⟩
    have fails : (getFile 2 1000).read File.smallVolume broken () =
        .ok (.error .blockError, getFile 2 1000, ()) := by decide +kernel
    clear ran
    induction outcomes with
    | nil => exact completes
    | cons outcome rest induction =>
      cases reads with
      | bytes read =>
        rw [fails] at read
        cases read
      | failed read later =>
        rw [fails] at read
        cases read
        exact induction later completes

end HypervisorFirmware.Efi
