import HypervisorFirmware.Fat.Filesystem

/-! # Files

The cursor of a regular file: `read` and `seek` of `fat.rs`, and the sectors of
the file that every sequence of these calls delivers. -/

namespace HypervisorFirmware.Fat

structure File where
  startCluster : UInt32
  activeCluster : UInt32
  sectorOffset : UInt64
  size : UInt32
  position : UInt32
  deriving DecidableEq, Repr

def getFile (cluster size : UInt32) : File where
  startCluster := cluster
  activeCluster := cluster
  sectorOffset := 0
  size := size
  position := 0

namespace File

variable {State : Type}

def followChain (fs : Filesystem) (device : SectorDevice State) (file : File)
    (state : State) : Exec (Except Error File × State) :=
  if file.sectorOffset = fs.sectorsPerCluster.toUInt64 then
    match fs.nextCluster device file.activeCluster state with
    | .error fault => .error fault
    | .ok (.error error, state) => .ok (.error error, state)
    | .ok (.ok cluster, state) =>
      .ok (.ok { file with activeCluster := cluster, sectorOffset := 0 }, state)
  else .ok (.ok file, state)

def read (fs : Filesystem) (device : SectorDevice State) (file : File) (state : State) :
    Exec (Except Error (UInt32 × Sector) × File × State) :=
  if file.position ≥ file.size then .ok (.error .endOfFile, file, state)
  else
    match file.followChain fs device state with
    | .error fault => .error fault
    | .ok (.error error, state) => .ok (.error error, file, state)
    | .ok (.ok file, state) =>
      let clusterStart := fs.firstSectorOfCluster file.activeCluster
      match fs.read device (clusterStart.toUInt64 + file.sectorOffset) state with
      | (none, state) => .ok (.error .blockError, file, state)
      | (some data, state) =>
        if file.position + 512 > file.size then
          .ok (.ok (file.size - file.position, data),
            { file with sectorOffset := file.sectorOffset + 1, position := file.size },
            state)
        else
          .ok (.ok (512, data),
            { file with
              sectorOffset := file.sectorOffset + 1
              position := file.position + 512 },
            state)

def seekBody (fs : Filesystem) (device : SectorDevice State) (position : UInt32)
    (cursor : File × State) :
    Exec ((File × State) ⊕ (Except Error Unit × File × State)) :=
  if cursor.1.position = position then .ok (.inr (.ok (), cursor))
  else
    match cursor.1.followChain fs device cursor.2 with
    | .error fault => .error fault
    | .ok (.error error, state) => .ok (.inr (.error error, cursor.1, state))
    | .ok (.ok file, state) =>
      .ok (.inl
        ({ file with
            sectorOffset := file.sectorOffset + 1
            position := file.position + 512 },
          state))

def seekBudget : Nat := 2 ^ 23 + 1

def seek (fs : Filesystem) (device : SectorDevice State) (position : UInt32) (file : File)
    (state : State) : Exec (Except Error Unit × File × State) :=
  if position % 512 ≠ 0 then .ok (.error .invalidOffset, file, state)
  else if position ≥ file.size then .ok (.error .endOfFile, file, state)
  else
    let file :=
      if position < file.position then
        { file with position := 0, sectorOffset := 0, activeCluster := file.startCluster }
      else file
    Loop.run (seekBody fs device position) seekBudget (file, state)

/-! ## The cursor -/

/-- The active cluster and the offset in it stand behind the first `sectors`
sectors of the file. A cluster that is used up is kept until the next one is
needed. -/
def Passed (fs : Filesystem) (content : UInt64 → Sector) (sectors : Nat)
    (file : File) : Prop :=
  ∃ index, fs.clusterAt content file.startCluster index = some file.activeCluster ∧
    index * fs.sectorsPerCluster.toNat + file.sectorOffset.toNat = sectors ∧
    file.sectorOffset.toNat ≤ fs.sectorsPerCluster.toNat

/-- The redundant parts of the cursor agree. Only the end of the file may lie
between two sectors. -/
structure Coherent (fs : Filesystem) (content : UInt64 → Sector) (start size : UInt32)
    (file : File) : Prop where
  startCluster : file.startCluster = start
  sized : file.size = size
  inside : file.position.toNat ≤ size.toNat
  boundary : file.position ≠ size → 512 ∣ file.position.toNat
  passed : file.Passed fs content ((file.position.toNat + 511) / 512)

variable {fs : Filesystem} {device : SectorDevice State}

theorem coherent_start (content : UInt64 → Sector) {start size : UInt32} {file : File}
    (startCluster : file.startCluster = start) (sized : file.size = size)
    (active : file.activeCluster = start) (offset : file.sectorOffset = 0)
    (position : file.position = 0) : file.Coherent fs content start size where
  startCluster := startCluster
  sized := sized
  inside := by
    rw [position]
    exact Nat.zero_le _
  boundary := fun _ => by
    rw [position]
    exact Nat.dvd_zero 512
  passed := by
    refine ⟨0, ?_, ?_, ?_⟩
    · rw [Filesystem.clusterAt, active, startCluster]
    · simp [offset, position]
    · simp [offset]

theorem getFile_coherent (content : UInt64 → Sector) (start size : UInt32) :
    (getFile start size).Coherent fs content start size :=
  coherent_start content rfl rfl rfl rfl rfl

structure Ready (fs : Filesystem) (content : UInt64 → Sector) (sectors : Nat)
    (file file' : File) : Prop where
  start : file'.startCluster = file.startCluster
  size : file'.size = file.size
  position : file'.position = file.position
  passed : file'.Passed fs content sectors
  room : file'.sectorOffset.toNat < fs.sectorsPerCluster.toNat

variable {file' : File} {fault : Fault} {result : Except Error (UInt32 × Sector)} {call : Call}
   {cursor : File × State} {response : Response}

theorem followChain_ready {file : File} {state next : State} {sectors : Nat}
    (positive : 0 < fs.sectorsPerCluster)
    (passed : file.Passed fs device.content sectors)
    (followed : file.followChain fs device state = .ok (.ok file', next)) :
    file.Ready fs device.content sectors file' := by
  have some_room : 0 < fs.sectorsPerCluster.toNat := UInt32.lt_iff_toNat_lt.mp positive
  rcases passed with ⟨index, active, total, offset⟩
  unfold followChain at followed
  split at followed
  · rename_i used
    have full : file.sectorOffset.toNat = fs.sectorsPerCluster.toNat := by
      rw [used, UInt32.toNat_toUInt64]
    split at followed
    · cases followed
    · cases followed
    · rename_i cluster after found
      cases followed
      refine ⟨rfl, rfl, rfl, ⟨index + 1, ?_, ?_, Nat.zero_le _⟩, some_room⟩
      · rw [Filesystem.clusterAt, active]
        exact Filesystem.successor_of_nextCluster found
      · rw [← total, full, Nat.add_mul, Nat.one_mul]
        rfl
  · rename_i unused
    cases followed
    refine ⟨rfl, rfl, rfl, ⟨index, active, total, offset⟩, ?_⟩
    apply Nat.lt_of_le_of_ne offset
    intro full
    apply unused
    rw [← UInt64.toNat_inj, full, UInt32.toNat_toUInt64]

theorem followChain_fault {file : File} {state : State}
    (faulted : file.followChain fs device state = .error fault) :
    fs.LookupFault fault := by
  unfold followChain at faulted
  split at faulted
  · split at faulted
    · rename_i other looked
      cases faulted
      exact Filesystem.nextCluster_fault looked
    · cases faulted
    · cases faulted
  · cases faulted

section

variable {content : UInt64 → Sector} {sectors : Nat} {file : File}
  (ready : file.Ready fs content sectors file')

include ready

theorem Ready.fileSector :
    fs.fileSector content file.startCluster sectors =
      fs.clusterSector content file'.activeCluster file'.sectorOffset := by
  rcases ready.passed with ⟨index, active, total, _⟩
  have room := ready.room
  have quotient : sectors / fs.sectorsPerCluster.toNat = index := by
    rw [← total, Nat.add_comm, Nat.add_mul_div_right _ _ (by omega), Nat.div_eq_of_lt room,
      Nat.zero_add]
  have remainder : sectors % fs.sectorsPerCluster.toNat = file'.sectorOffset.toNat := by
    rw [← total, Nat.add_comm, Nat.add_mul_mod_self_right, Nat.mod_eq_of_lt room]
  rw [Filesystem.fileSector, quotient, remainder, ← ready.start, active, UInt64.ofNat_toNat]
  rfl

theorem Ready.advance (position : UInt32) :
    Passed fs content (sectors + 1)
      { file' with sectorOffset := file'.sectorOffset + 1, position := position } := by
  rcases ready.passed with ⟨index, active, total, _⟩
  have room := ready.room
  have bounded := fs.sectorsPerCluster.toNat_lt
  have offset : (file'.sectorOffset + 1).toNat = file'.sectorOffset.toNat + 1 := by
    rw [UInt64.toNat_add, UInt64.toNat_one, Nat.mod_eq_of_lt (by omega)]
  refine ⟨index, active, ?_, ?_⟩
  · rw [offset, ← total]
    omega
  · rw [offset]
    exact room

end

/-! ## Reads and seeks keep the cursor coherent -/

structure Delivers (fs : Filesystem) (content : UInt64 → Sector) (start size : UInt32)
    (file : File) (count : UInt32) (data : Sector) (next : File) : Prop where
  sector : fs.fileSector content start (file.position.toNat / 512) = some data
  counted : count.toNat = min 512 (size.toNat - file.position.toNat)
  moved : next.position.toNat = file.position.toNat + count.toNat

variable {start size : UInt32} {file : File} {state : State}

theorem toNat_512 : (512 : UInt32).toNat = 512 := rfl

section

variable {content : UInt64 → Sector} (coherent : file.Coherent fs content start size)

include coherent

theorem Coherent.boundary_or_end :
    file.position.toNat = size.toNat ∨ 512 ∣ file.position.toNat := by
  by_cases ended : file.position = size
  · exact .inl (congrArg UInt32.toNat ended)
  · exact .inr (coherent.boundary ended)

theorem Coherent.aligned (before : file.position.toNat < size.toNat) : 512 ∣ file.position.toNat :=
  coherent.boundary_or_end.resolve_left (Nat.ne_of_lt before)

theorem Coherent.passed_whole (before : file.position.toNat < size.toNat) :
    file.Passed fs content (file.position.toNat / 512) := by
  have aligned := coherent.aligned before
  have sectors : (file.position.toNat + 511) / 512 = file.position.toNat / 512 := by omega
  rw [← sectors]
  exact coherent.passed

end

/-- Behind `followChain` the cursor is still coherent, should the sector then not
be readable. -/
theorem Coherent.followed {after : State} (positive : 0 < fs.sectorsPerCluster)
    (coherent : file.Coherent fs device.content start size)
    (followed : file.followChain fs device state = .ok (.ok file', after)) :
    file'.Coherent fs device.content start size := by
  have ready := followChain_ready positive coherent.passed followed
  constructor
  · rw [ready.start, coherent.startCluster]
  · rw [ready.size, coherent.sized]
  · rw [ready.position]
    exact coherent.inside
  · rw [ready.position]
    exact coherent.boundary
  · rw [ready.position]
    exact ready.passed

theorem Ready.coherent {content : UInt64 → Sector} {position : UInt32}
    (ready : file.Ready fs content (file.position.toNat / 512) file')
    (coherent : file.Coherent fs content start size)
    (aligned : 512 ∣ file.position.toNat)
    (moved : position.toNat = file.position.toNat + 512 ∨ position = size)
    (further : file.position.toNat < position.toNat)
    (near : position.toNat ≤ file.position.toNat + 512)
    (inside : position.toNat ≤ size.toNat) :
    Coherent fs content start size
      { file' with sectorOffset := file'.sectorOffset + 1, position := position } where
  startCluster := by rw [ready.start, coherent.startCluster]
  sized := by rw [ready.size, coherent.sized]
  inside := inside
  boundary := by
    intro different
    rcases moved with moved | moved
    · rw [moved]
      exact Nat.dvd_add aligned (Nat.dvd_refl 512)
    · exact absurd moved different
  passed := by
    have sectors : (position.toNat + 511) / 512 = file.position.toNat / 512 + 1 := by omega
    rw [sectors]
    exact ready.advance position

theorem Ready.delivers {content : UInt64 → Sector} {count position : UInt32}
    {data : Sector} (ready : file.Ready fs content (file.position.toNat / 512) file')
    (coherent : file.Coherent fs content start size)
    (before : file.position.toNat < size.toNat)
    (sector : fs.fileSector content start (file.position.toNat / 512) = some data)
    (counted : count.toNat = min 512 (size.toNat - file.position.toNat))
    (moved : position.toNat = file.position.toNat + count.toNat) :
    Coherent fs content start size
        { file' with sectorOffset := file'.sectorOffset + 1, position := position } ∧
      Delivers fs content start size file count data
        { file' with sectorOffset := file'.sectorOffset + 1, position := position } := by
  have next : position.toNat = file.position.toNat + 512 ∨ position = size := by
    by_cases whole : 512 ≤ size.toNat - file.position.toNat
    · left
      omega
    · right
      apply UInt32.toNat_inj.mp
      omega
  refine ⟨?_, sector, counted, moved⟩
  apply ready.coherent coherent (coherent.aligned before) next
  all_goals omega

theorem read_fault (faulted : file.read fs device state = .error fault) : fs.LookupFault fault := by
  unfold read at faulted
  split at faulted
  · cases faulted
  · split at faulted
    · rename_i other looked
      cases faulted
      exact followChain_fault looked
    · cases faulted
    · simp only at faulted
      split at faulted
      · cases faulted
      · split at faulted <;> cases faulted

theorem Coherent.read_atEnd {content : UInt64 → Sector}
    (coherent : file.Coherent fs content start size) (ended : file.position = size) :
    file.read fs device state = .ok (.error .endOfFile, file, state) := by
  have finished : file.position ≥ file.size := by
    rw [coherent.sized]
    exact UInt32.le_of_eq ended.symm
  rw [File.read, if_pos finished]

theorem Coherent.read_of_room (positive : 0 < fs.sectorsPerCluster)
    (room : file.position.toNat + 512 < 2 ^ 32)
    (coherent : file.Coherent fs device.content start size) {next : File} {after : State}
    (outcome : file.read fs device state = .ok (result, next, after)) :
    next.Coherent fs device.content start size ∧
      ∀ count data, result = .ok (count, data) →
        Delivers fs device.content start size file count data next := by
  unfold File.read at outcome
  split at outcome
  · cases outcome
    exact ⟨coherent, fun _ _ impossible => by cases impossible⟩
  · rename_i unfinished
    have before : file.position.toNat < size.toNat := by
      rw [← coherent.sized]
      exact UInt32.lt_iff_toNat_lt.mp (UInt32.not_le.mp unfinished)
    split at outcome
    · cases outcome
    · cases outcome
      exact ⟨coherent, fun _ _ impossible => by cases impossible⟩
    · rename_i file' middle followed
      have ready := followChain_ready positive (coherent.passed_whole before) followed
      simp only at outcome
      split at outcome
      · cases outcome
        exact ⟨coherent.followed positive followed, fun _ _ impossible => by cases impossible⟩
      · rename_i data last loaded
        have sector : fs.fileSector device.content start (file.position.toNat / 512) =
            some data := by
          rw [← coherent.startCluster, ready.fileSector, Filesystem.clusterSector,
            Filesystem.read_eq_some loaded]
        have total : file'.size = size := ready.size.trans coherent.sized
        have sum : (file'.position + 512).toNat = file.position.toNat + 512 := by
          rw [ready.position, UInt32.toNat_add, toNat_512, Nat.mod_eq_of_lt room]
        split at outcome
        · rename_i short
          rw [gt_iff_lt, UInt32.lt_iff_toNat_lt, sum, total] at short
          have count : (file'.size - file'.position).toNat = size.toNat - file.position.toNat := by
            rw [total, ready.position]
            exact UInt32.toNat_sub_of_le _ _ (UInt32.le_iff_toNat_le.mpr coherent.inside)
          have delivered := ready.delivers coherent before sector
            (show (file'.size - file'.position).toNat = _ by rw [count]; omega)
            (show file'.size.toNat = _ by rw [count, total]; omega)
          cases outcome
          refine ⟨delivered.1, ?_⟩
          rintro _ _ ⟨⟩
          exact delivered.2
        · rename_i whole
          rw [gt_iff_lt, UInt32.lt_iff_toNat_lt, sum, total] at whole
          have delivered := ready.delivers coherent before sector
            (show (512 : UInt32).toNat = _ by rw [toNat_512]; omega) sum
          cases outcome
          refine ⟨delivered.1, ?_⟩
          rintro _ _ ⟨⟩
          exact delivered.2

theorem Coherent.read (positive : 0 < fs.sectorsPerCluster) (small : size.toNat ≤ 2 ^ 32 - 512)
    (coherent : file.Coherent fs device.content start size) {next : File} {after : State}
    (outcome : file.read fs device state = .ok (result, next, after)) :
    next.Coherent fs device.content start size ∧
      ∀ count data, result = .ok (count, data) →
        Delivers fs device.content start size file count data next := by
  by_cases ended : file.position = size
  · rw [coherent.read_atEnd ended] at outcome
    cases outcome
    exact ⟨coherent, fun _ _ impossible => by cases impossible⟩
  · have inside := coherent.inside
    have different : file.position.toNat ≠ size.toNat := fun same =>
      ended (UInt32.toNat_inj.mp same)
    exact coherent.read_of_room positive (by omega) outcome

def Sought (fs : Filesystem) (content : UInt64 → Sector) (start size position : UInt32) :
    Exec (Except Error Unit × File × State) → Prop
  | .error fault => fs.LookupFault fault
  | .ok (result, next, _) =>
    next.Coherent fs content start size ∧ (result = .ok () → next.position = position)

theorem Coherent.seek_loop {position : UInt32} (positive : 0 < fs.sectorsPerCluster)
    (coherent : file.Coherent fs device.content start size)
    (aligned : 512 ∣ position.toNat) (inside : position.toNat < size.toNat)
    (behind : file.position.toNat ≤ position.toNat) :
    Sought fs device.content start size position
      (Loop.run (seekBody fs device position) seekBudget (file, state)) := by
  have budget : seekBudget = 8388609 := rfl
  have bounded := position.toNat_lt
  apply Loop.run_of_measure
    (fun cursor : File × State => cursor.1.Coherent fs device.content start size ∧
      cursor.1.position.toNat ≤ position.toNat)
    (fun cursor : File × State => (position.toNat - cursor.1.position.toNat) / 512)
    (Sought fs device.content start size position)
  · rintro ⟨file, state⟩ ⟨coherent, behind⟩
    simp only at coherent behind
    unfold seekBody
    split_ifs with arrived
    · exact ⟨coherent, fun _ => arrived⟩
    · have before : file.position.toNat < position.toNat := by
        apply Nat.lt_of_le_of_ne behind
        intro equal
        exact arrived (UInt32.toNat_inj.mp equal)
      cases followed : file.followChain fs device state with
      | error fault => exact followChain_fault followed
      | ok outcome =>
        rcases outcome with ⟨result, after⟩
        cases result with
        | error error => exact ⟨coherent, fun impossible => by cases impossible⟩
        | ok file' =>
          have unfinished : file.position.toNat < size.toNat := by omega
          have divides := coherent.aligned unfinished
          have ready := followChain_ready positive (coherent.passed_whole unfinished) followed
          have sum : (file'.position + 512).toNat = file.position.toNat + 512 := by
            rw [ready.position, UInt32.toNat_add, toNat_512, Nat.mod_eq_of_lt (by omega)]
          refine ⟨⟨ready.coherent coherent divides (.inl sum) ?_ ?_ ?_, ?_⟩, ?_⟩
          all_goals simp only [sum]
          all_goals omega
  · exact ⟨coherent, behind⟩
  · rw [budget]
    omega

theorem Coherent.seek (positive : 0 < fs.sectorsPerCluster) (position : UInt32)
    (state : State) (coherent : file.Coherent fs device.content start size) :
    Sought fs device.content start size position (file.seek fs device position state) := by
  unfold File.seek
  split_ifs with unaligned outside back
  · exact ⟨coherent, fun impossible => by cases impossible⟩
  · exact ⟨coherent, fun impossible => by cases impossible⟩
  all_goals
    have aligned : 512 ∣ position.toNat := by
      apply Nat.dvd_of_mod_eq_zero
      have zero := congrArg UInt32.toNat (not_not.mp unaligned)
      simpa [UInt32.toNat_mod] using zero
    have inside : position.toNat < size.toNat := by
      rw [← coherent.sized]
      exact UInt32.lt_iff_toNat_lt.mp (UInt32.not_le.mp outside)
  · have rewound : Coherent fs device.content start size { file with
        position := 0, sectorOffset := 0, activeCluster := file.startCluster } :=
      coherent_start device.content coherent.startCluster coherent.sized
        coherent.startCluster rfl rfl
    exact rewound.seek_loop positive aligned inside (Nat.zero_le _)
  · exact coherent.seek_loop positive aligned inside
      (UInt32.le_iff_toNat_le.mp (UInt32.not_lt.mp back))

/-! ## Any mix of reads and seeks -/

inductive Call
  | read
  | seek (position : UInt32)
  deriving DecidableEq, Repr

inductive Response
  | read (result : Except Error (UInt32 × Sector))
  | seek (result : Except Error Unit)

def step (fs : Filesystem) (device : SectorDevice State) (cursor : File × State) :
    Call → Exec (Response × File × State)
  | .read =>
    match cursor.1.read fs device cursor.2 with
    | .error fault => .error fault
    | .ok (result, next) => .ok (.read result, next)
  | .seek position =>
    match cursor.1.seek fs device position cursor.2 with
    | .error fault => .error fault
    | .ok (result, next) => .ok (.seek result, next)

/-- What a call on a file of this start cluster and size has to do, wherever the
cursor stands. -/
structure PositionFaithful (fs : Filesystem) (device : SectorDevice State)
    (start size : UInt32) (cursor : File × State) (call : Call) : Prop where
  returns : ∀ fault, step fs device cursor call = .error fault → fs.LookupFault fault
  reads : ∀ count data next after,
    step fs device cursor call = .ok (.read (.ok (count, data)), next, after) →
    Delivers fs device.content start size cursor.1 count data next
  atEnd : call = .read → cursor.1.position = size →
    step fs device cursor call = .ok (.read (.error .endOfFile), cursor)
  seeks : ∀ position next after, call = .seek position →
    step fs device cursor call = .ok (.seek (.ok ()), next, after) →
    next.position = position

theorem step_cases {next : File × State}
    (stepped : step fs device cursor call = .ok (response, next)) :
    (∃ result, call = .read ∧ response = .read result ∧
      cursor.1.read fs device cursor.2 = .ok (result, next)) ∨
    ∃ position result, call = .seek position ∧ response = .seek result ∧
      cursor.1.seek fs device position cursor.2 = .ok (result, next) := by
  cases call with
  | read =>
    rw [step] at stepped
    split at stepped
    · cases stepped
    · rename_i outcome
      cases stepped
      exact .inl ⟨_, rfl, rfl, outcome⟩
  | seek position =>
    rw [step] at stepped
    split at stepped
    · cases stepped
    · rename_i outcome
      cases stepped
      exact .inr ⟨position, _, rfl, rfl, outcome⟩

theorem Coherent.step_fault (positive : 0 < fs.sectorsPerCluster)
    (coherent : cursor.1.Coherent fs device.content start size)
    (faulted : File.step fs device cursor call = .error fault) : fs.LookupFault fault := by
  cases call with
  | read =>
    rw [File.step] at faulted
    split at faulted
    · rename_i outcome
      cases faulted
      exact read_fault outcome
    · cases faulted
  | seek position =>
    have sought := coherent.seek positive position cursor.2
    rw [File.step] at faulted
    split at faulted
    · rename_i outcome
      cases faulted
      rwa [outcome] at sought
    · cases faulted

theorem Coherent.step {next : File × State}
    (positive : 0 < fs.sectorsPerCluster) (small : size.toNat ≤ 2 ^ 32 - 512)
    (coherent : cursor.1.Coherent fs device.content start size)
    (stepped : File.step fs device cursor call = .ok (response, next)) :
    next.1.Coherent fs device.content start size := by
  rcases step_cases stepped with ⟨result, _, _, outcome⟩ | ⟨position, result, _, _, outcome⟩
  · exact (coherent.read positive small outcome).1
  · have sought := coherent.seek positive position cursor.2
    rw [outcome] at sought
    exact sought.1

theorem Coherent.positionFaithful
    (positive : 0 < fs.sectorsPerCluster) (small : size.toNat ≤ 2 ^ 32 - 512)
    (coherent : cursor.1.Coherent fs device.content start size) (call : Call) :
    PositionFaithful fs device start size cursor call where
  returns := fun _ faulted => coherent.step_fault positive faulted
  reads := by
    intro count data next after stepped
    rcases step_cases stepped with ⟨result, _, same, outcome⟩ | ⟨_, _, _, impossible, _⟩
    · cases same
      exact (coherent.read positive small outcome).2 count data rfl
    · cases impossible
  atEnd := by
    rintro ⟨⟩ ended
    rw [File.step, coherent.read_atEnd ended]
  seeks := by
    rintro position next after ⟨⟩ stepped
    rcases step_cases stepped with ⟨_, impossible, _⟩ | ⟨target, result, call, same, outcome⟩
    · cases impossible
    · cases call
      cases same
      have sought := coherent.seek positive position cursor.2
      rw [outcome] at sought
      exact sought.2 rfl

/-- Every call of every run on a fresh file is faithful to the position, also
behind calls that failed. -/
theorem runs_positionFaithful (fs : Filesystem) (device : SectorDevice State)
    (positive : 0 < fs.sectorsPerCluster) (start size : UInt32)
    (small : size.toNat ≤ 2 ^ 32 - 512) (calls : List Call) (state : State) :
    Machine.EveryStep (step fs device) (PositionFaithful fs device start size)
      (getFile start size, state) calls :=
  Machine.everyStep_of_invariant
    (fun cursor => cursor.1.Coherent fs device.content start size)
    (fun _ _ _ _ coherent stepped => coherent.step positive small stepped)
    (fun _ call coherent => coherent.positionFaithful positive small call)
    calls _ (getFile_coherent device.content start size)

def smallVolume : Filesystem where
  start := 0
  last := 63
  bytesPerSector := 512
  fatType := .fat32
  sectorsPerCluster := 1
  firstFatSector := 1
  firstDataSector := 2

def flaky : SectorDevice Bool where
  content sector := Vector.replicate 512 sector.toUInt8
  fails _ broken := (broken, !broken)

/-- Calls on a device every other of whose reads fails, some of them after a failure. -/
theorem runs_positionFaithful_flaky :
    Machine.EveryStep (step smallVolume flaky) (PositionFaithful smallVolume flaky 2 1000)
      (getFile 2 1000, true) [.read, .read, .seek 512, .read, .seek 0, .read] :=
  runs_positionFaithful smallVolume flaky (by decide) 2 1000 (by decide) _ _

end File

end HypervisorFirmware.Fat
