import Mathlib.Algebra.Ring.Nat
import HypervisorFirmware.Fat.LongFile

/-! # Reading a file to its end

A file that has just been opened, read until `EndOfFile`. The end is recognised by
the position plus 512, a `u32` that wraps for files of nearly 4 GiB. -/

namespace HypervisorFirmware.Fat

structure Filesystem.LongEnough (fs : Filesystem) (content : UInt64 → Sector)
    (start size : UInt32) : Prop where
  positive : 0 < fs.sectorsPerCluster
  readable : ∀ index, 512 * index < size.toNat →
    ∃ data, fs.fileSector content start index = some data

namespace File

inductive ReadsToEnd (fs : Filesystem) (content : UInt64 → Sector) :
    File → List (UInt32 × File) → Prop
  | ended {file file' : File}
      (outcome : file.read fs (.reliable content) () = .ok (.error .endOfFile, file', ())) :
      ReadsToEnd fs content file []
  | more {file next : File} {count : UInt32} {data : Sector} {steps : List (UInt32 × File)}
      (outcome : file.read fs (.reliable content) () = .ok (.ok (count, data), next, ()))
      (rest : ReadsToEnd fs content next steps) :
      ReadsToEnd fs content file ((count, next) :: steps)

/-- The file is read to its end in one read for each sector, the counts add up to what
is left of it, and the position does not go back. -/
structure Completes (fs : Filesystem) (content : UInt64 → Sector) (file : File)
    (steps : List (UInt32 × File)) : Prop where
  reads : ReadsToEnd fs content file steps
  number : steps.length = (file.size.toNat - file.position.toNat + 511) / 512
  total : (steps.map fun step => step.1.toNat).sum = file.size.toNat - file.position.toNat
  forward : (file.position :: steps.map fun step => step.2.position).IsChain (· ≤ ·)

variable {fs : Filesystem} {content : UInt64 → Sector} {start size : UInt32} {file : File}

/-! ## Files that end below the limit -/

variable {steps : List (UInt32 × File)}

theorem Completes.cons {next : File} {count : UInt32} {data : Sector}
    (completes : next.Completes fs content steps)
    (outcome : file.read fs (.reliable content) () = .ok (.ok (count, data), next, ()))
    (sized : next.size = file.size) (before : file.position.toNat < file.size.toNat)
    (counted : count.toNat = min 512 (file.size.toNat - file.position.toNat))
    (moved : next.position.toNat = file.position.toNat + count.toNat) :
    file.Completes fs content ((count, next) :: steps) where
  reads := .more outcome completes.reads
  number := by
    have number := completes.number
    rw [sized] at number
    rw [List.length_cons, number]
    omega
  total := by
    have total := completes.total
    rw [sized] at total
    simp only [List.map_cons, List.sum_cons, total]
    omega
  forward := by
    have further : file.position ≤ next.position := UInt32.le_iff_toNat_le.mpr (by omega)
    exact .cons_cons further completes.forward

theorem completes_of_small (long : fs.LongEnough content start size)
    (small : size.toNat ≤ 2 ^ 32 - 512) (coherent : file.Coherent fs content start size) :
    ∃ steps, file.Completes fs content steps := by
  -- By the bytes that are left.
  induction left : size.toNat - file.position.toNat using Nat.strongRecOn generalizing file with
  | ind left induction =>
    have inside := coherent.inside
    by_cases before : file.position.toNat < size.toNat
    · rcases read_reliable long.positive long.readable coherent before with
        ⟨count, data, next, outcome⟩
      have read := Coherent.read long.positive small
        (show file.Coherent fs (SectorDevice.reliable content).content start size
          from coherent) outcome
      have delivered := read.2 count data rfl
      have counted := delivered.counted
      have moved := delivered.moved
      rcases induction _ (by omega) read.1 rfl with ⟨steps, completes⟩
      rw [← coherent.sized] at before counted
      have sized := read.1.sized.trans coherent.sized.symm
      exact ⟨_, completes.cons outcome sized before counted moved⟩
    · have ended : file.position = file.size := by
        rw [coherent.sized]
        exact UInt32.toNat_inj.mp (by omega)
      refine ⟨[], .ended (coherent.read_atEnd (ended.trans coherent.sized)), ?_, ?_, ?_⟩
      · rw [ended, Nat.sub_self]
        rfl
      · rw [ended, Nat.sub_self]
        rfl
      · exact .singleton _

/-! ## Files that do not -/

theorem read_position {State : Type} {device : SectorDevice State} {state after : State}
    {count : UInt32} {data : Sector} {next : File}
    (outcome : file.read fs device state = .ok (.ok (count, data), next, after)) :
    next.position =
      if file.position + 512 > file.size then file.size else file.position + 512 := by
  have followed {middle : State} {file' : File}
      (outcome : file.followChain fs device state = .ok (.ok file', middle)) :
      file'.position = file.position ∧ file'.size = file.size := by
    unfold followChain at outcome
    split at outcome
    · split at outcome <;> cases outcome
      exact ⟨rfl, rfl⟩
    · cases outcome
      exact ⟨rfl, rfl⟩
  unfold File.read at outcome
  split at outcome
  · cases outcome
  · split at outcome
    · cases outcome
    · cases outcome
    · rename_i file' middle chained
      rw [← (followed chained).1, ← (followed chained).2]
      simp only at outcome
      split at outcome
      · cases outcome
      · split_ifs at outcome ⊢ with short
        · cases outcome
          rfl
        · cases outcome
          rfl

theorem not_forward_of_large (long : fs.LongEnough content start size)
    (large : 2 ^ 32 - 512 < size.toNat)
    (reads : ReadsToEnd fs content file steps)
    (coherent : file.Coherent fs content start size) (aligned : 512 ∣ file.position.toNat)
    (before : file.position.toNat < size.toNat) :
    ¬(file.position :: steps.map fun step => step.2.position).IsChain (· ≤ ·) := by
  induction reads with
  | ended outcome =>
    rcases read_reliable long.positive long.readable coherent before with
      ⟨count, data, next, succeeded⟩
    rw [succeeded] at outcome
    cases outcome
  | more outcome rest induction =>
    rename_i file next count data steps
    intro forward
    rw [List.map_cons, List.isChain_cons_cons] at forward
    by_cases room : file.position.toNat + 512 < 2 ^ 32
    · have read := Coherent.read_of_room long.positive room
        (show file.Coherent fs (SectorDevice.reliable content).content start size
          from coherent) outcome
      have delivered := read.2 count data rfl
      have counted := delivered.counted
      have moved := delivered.moved
      exact induction read.1 (by omega) (by omega) forward.2
    · have wraps : file.position + 512 = 0 := by
        have bounded := file.position.toNat_lt
        rw [← UInt32.toNat_inj, UInt32.toNat_add, toNat_512, UInt32.toNat_zero]
        omega
      have back : next.position = 0 := by
        rw [read_position outcome, wraps, if_neg (UInt32.not_lt.mpr (UInt32.zero_le))]
      have further := UInt32.le_iff_toNat_le.mp forward.1
      simp only [back, UInt32.toNat_zero] at further
      omega

theorem not_completes_of_large (long : fs.LongEnough content start size)
    (large : 2 ^ 32 - 512 < size.toNat) :
    ¬∃ steps, (getFile start size).Completes fs content steps := by
  rintro ⟨steps, completes⟩
  have before : (getFile start size).position.toNat < size.toNat := by
    change 0 < size.toNat
    omega
  exact not_forward_of_large long large completes.reads (getFile_coherent content start size)
    (Nat.dvd_zero 512) before completes.forward

/-- A file that is long enough is read to its end exactly when its size is at most 512
bytes below 4 GiB. -/
theorem readToEnd_iff_small (long : fs.LongEnough content start size) :
    (∃ steps, (getFile start size).Completes fs content steps) ↔ size.toNat ≤ 2 ^ 32 - 512 := by
  constructor
  · intro completes
    by_contra large
    exact not_completes_of_large long (by omega) completes
  · intro small
    exact completes_of_small long small (getFile_coherent content start size)

theorem longFile_longEnough (size : UInt32) :
    LongFile.volume.LongEnough LongFile.content 2 size where
  positive := by decide
  readable := by
    intro index inside
    have bounded := size.toNat_lt
    exact ⟨LongFile.dataSector, LongFile.fileSector_eq index (by omega)⟩

theorem longFile_thousand_bytes :
    LongFile.volume.LongEnough LongFile.content 2 1000 ∧
      ∃ steps, (getFile 2 1000).Completes LongFile.volume LongFile.content steps :=
  ⟨longFile_longEnough 1000, (readToEnd_iff_small (longFile_longEnough 1000)).mpr (by decide)⟩

/-- A file of the largest size is not read to its end. -/
theorem longFile_largest_file :
    LongFile.volume.LongEnough LongFile.content 2 0xffffffff ∧
      ¬∃ steps, (getFile 2 0xffffffff).Completes LongFile.volume LongFile.content steps :=
  ⟨longFile_longEnough 0xffffffff,
    not_completes_of_large (longFile_longEnough 0xffffffff) (by decide)⟩

end File

end HypervisorFirmware.Fat
