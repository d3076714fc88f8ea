import HypervisorFirmware.Pi.FirmwareVolume

/-! # The bounds of the search

What the search of `pi/fv_lib.rs` looks at, for volumes at any address. Its masks keep 32
bits of an address, so it leaves a volume above 4 GiB at once; and it compares only the
start of a header with the end of the volume, so behind the last file it may look at a
header of which the volume has a part or nothing. -/

namespace HypervisorFirmware.Pi

/-! ## What the search looks at -/

structure Search where
  memory : ByteMemory
  base : UInt64
  length : UInt64
  fileType : UInt8
  sectionType : UInt8

namespace Search

variable (search : Search)

def run (fuel : Nat) : Exec Image :=
  getImageFromFv search.memory fuel search.base search.length search.fileType search.sectionType

def last : UInt64 := search.base + search.length

def filesAddress : UInt64 := search.base + (headerLength search.memory search.base).toUInt64

def look (fuel : Nat) (header : UInt64) : Exec (Option Image) :=
  fileImage search.memory search.fileType search.sectionType fuel header

def fileBody (fuel : Nat) : UInt64 → Exec (UInt64 ⊕ Image) :=
  scanBody 7 0xfffffff8 (24 + 4) (ffsSize search.memory) (search.look fuel) search.last

def sectionsEnd (file : UInt64) : UInt64 := file + 24 + (ffsSize search.memory file - 24)

def sectionBody (file : UInt64) : UInt64 → Exec (UInt64 ⊕ Image) :=
  scanBody 3 0xfffffffc 4 (sectionSize search.memory)
    (fun header => .ok (sectionImage search.memory search.sectionType header))
    (search.sectionsEnd file)

def InspectsFile (header : UInt64) : Prop :=
  header ≤ search.last ∧ ∃ fuel nextPtr,
    Loop.Visits (search.fileBody fuel) search.filesAddress nextPtr ∧
    (nextPtr + 7) &&& 0xfffffff8 = header

def EntersFile (file : UInt64) : Prop :=
  search.InspectsFile file ∧ 24 + 4 ≤ ffsSize search.memory file ∧
    file + ffsSize search.memory file ≤ search.last ∧
    ffsType search.memory file = search.fileType

def InspectsSection (header : UInt64) : Prop :=
  ∃ file, search.EntersFile file ∧ header ≤ search.sectionsEnd file ∧ ∃ nextPtr,
    Loop.Visits (search.sectionBody file) (file + 24) nextPtr ∧
    (nextPtr + 3) &&& 0xfffffffc = header

def Inside (start size : Nat) : Prop :=
  search.base.toNat ≤ start ∧ start + size ≤ search.base.toNat + search.length.toNat

/-- The search ends, every header that it looks at is in the volume, and so is the image
that it returns. -/
structure StaysInside : Prop where
  terminates : Settles search.run
  files : ∀ header, search.InspectsFile header → search.Inside header.toNat 24
  sections : ∀ header, search.InspectsSection header → search.Inside header.toNat 4
  image : ∀ found : Image, SettlesTo search.run (.ok found) → found.1 ≠ 0 →
    search.Inside found.1.toNat found.2.toNat

end Search

/-! ## Layouts that keep the search inside -/

/-- A level of chunks: their alignment, the size of a header and of the smallest chunk,
the addresses between which a chunk is whole, the end of the volume, and the size that a
header tells. -/
structure Level where
  alignment : Nat
  header : Nat
  least : Nat
  low : Nat
  last : Nat
  top : Nat
  size : UInt64 → UInt64

namespace Level

variable (level : Level)

def next (address : Nat) : Nat := address + (level.size (UInt64.ofNat address)).toNat

def Stops (address : Nat) : Prop := Breaks level.least level.last level.size address

/-- At this address there is a chunk that is large enough, and all of it is between `low`
and `last`. -/
def Whole (address : Nat) : Prop := level.low ≤ address ∧ ¬level.Stops address

/-- Whole chunks one behind the other, from `start` up to `stop`. The place of the next
one is rounded up and cut to 32 bits. -/
inductive Row : (start : Nat) → List Nat → (stop : Nat) → Prop
  | nil {start : Nat} : Row start [] start
  | cons {start stop : Nat} {rest : List Nat} : level.Whole start →
      Row (wrapUp level.alignment (level.next start)) rest stop → Row start (start :: rest) stop

/-- A scan stops at this address and does no harm: it is behind the last byte, or it has
room for a header, but no chunk that is large enough and fits. -/
def Gap (address : Nat) : Prop :=
  level.last < address ∨
    (level.low ≤ address ∧ address + level.header ≤ level.top ∧ level.Stops address)

end Level

namespace Search

variable (search : Search)

def fileLevel : Level :=
  ⟨8, 24, 28, search.base.toNat, search.last.toNat, search.last.toNat, ffsSize search.memory⟩

def sectionLevel (file : Nat) : Level :=
  ⟨4, 4, 4, search.base.toNat, search.fileLevel.next file, search.last.toNat,
    sectionSize search.memory⟩

def Wanted (file : Nat) : Prop := ffsType search.memory (UInt64.ofNat file) = search.fileType

def SectionRow (file stop : Nat) : Prop :=
  ∃ sections, (search.sectionLevel file).Row (wrapUp 4 (file + 24)) sections stop ∧
    ∀ header ∈ sections, search.memory (UInt64.ofNat header + 3) ≠ search.sectionType

/-- A file has sections of other types only, and behind them there is a gap. -/
def NoImage (file : Nat) : Prop :=
  ∃ stop, search.SectionRow file stop ∧ (search.sectionLevel file).Gap stop

def ImageAt (file address : Nat) : Prop :=
  search.SectionRow file address ∧ (search.sectionLevel file).Whole address ∧
    search.memory (UInt64.ofNat address + 3) = search.sectionType

def payload (address : Nat) : Image :=
  (UInt64.ofNat address + 4, sectionSize search.memory (UInt64.ofNat address) - 4)

/-- The volume has whole files one behind the other. Those of the type have no image, and
behind the last one there is a gap or a file with an image. -/
def LaidOut : Prop :=
  ∃ files stop, search.fileLevel.Row
      (wrapUp 8 (search.base.toNat + (headerLength search.memory search.base).toNat)) files stop ∧
    (∀ file ∈ files, search.Wanted file → search.NoImage file) ∧
    (search.fileLevel.Gap stop ∨
      search.fileLevel.Whole stop ∧ search.Wanted stop ∧ ∃ address, search.ImageAt stop address)

end Search

/-! ## Scans that stay inside -/

namespace Level

variable {level : Level} {address : Nat}

theorem whole_iff : level.Whole address ↔
    level.low ≤ address ∧ level.least ≤ (level.size (UInt64.ofNat address)).toNat ∧
      level.next address ≤ level.last := by
  rw [Whole, Stops, Breaks, next]
  omega

/-- What a scan has to meet at an address: a header that it looks at is inside, and a chunk
that it goes into meets `Extra`. -/
def MeetsAt (level : Level) (Extra : Nat → Prop) (address : Nat) : Prop :=
  (address ≤ level.last → level.low ≤ address ∧ address + level.header ≤ level.top) ∧
    (¬level.Stops address → Extra address)

theorem Gap.stops (gap : level.Gap address) : level.Stops address := by
  rcases gap with behind | ⟨_, _, stops⟩
  · exact Or.inl behind
  · exact stops

theorem Gap.meetsAt (gap : level.Gap address) (Extra : Nat → Prop) :
    level.MeetsAt Extra address := by
  refine ⟨fun before => ?_, fun goes => absurd gap.stops goes⟩
  rcases gap with behind | ⟨above, room, _⟩
  · omega
  · exact ⟨above, room⟩

theorem Row.whole {start stop : Nat} {chunks : List Nat} (row : level.Row start chunks stop) :
    ∀ chunk ∈ chunks, level.Whole chunk := by
  induction row with
  | nil => simp
  | cons whole _ induction => exact List.forall_mem_cons.mpr ⟨whole, induction⟩

/-- The masks keep all addresses of a row below 4 GiB. -/
theorem Row.bounded {start stop : Nat} {chunks : List Nat} (row : level.Row start chunks stop)
    (bound : start < 2 ^ 32) : (∀ chunk ∈ chunks, chunk < 2 ^ 32) ∧ stop < 2 ^ 32 := by
  induction row with
  | nil => exact ⟨by simp, bound⟩
  | cons _ _ induction =>
    have later := induction (wrapUp_lt _ _)
    exact ⟨List.forall_mem_cons.mpr ⟨bound, later.1⟩, later.2⟩

/-- The numbers with which the code scans a level. -/
structure ScannedBy (level : Level) (round mask minimum stop : UInt64) : Prop where
  rounds : ∀ address : UInt64,
    (address + round) &&& mask = UInt64.ofNat (wrapUp level.alignment address.toNat)
  small : ∀ address, (level.size address).toNat < 2 ^ 24
  smallest : minimum.toNat = level.least
  ends : stop.toNat = level.last
  few : level.header ≤ level.least
  inside : level.last ≤ level.top

section Step

variable {round mask minimum stop : UInt64}
  (scanned : level.ScannedBy round mask minimum stop) (look : UInt64 → Exec (Option Image))

include scanned

theorem Whole.meetsAt (whole : level.Whole address) {Extra : Nat → Prop}
    (extra : Extra address) : level.MeetsAt Extra address := by
  refine ⟨fun _ => ⟨whole.1, ?_⟩, fun _ => extra⟩
  rcases whole_iff.mp whole with ⟨_, large, fits⟩
  have few := scanned.few
  have inside := scanned.inside
  unfold next at fits
  omega

theorem scanBody_at {nextPtr : UInt64} (here : wrapUp level.alignment nextPtr.toNat = address) :
    scanBody round mask minimum level.size look stop nextPtr =
      if Breaks level.least level.last level.size address then .ok (.inr (0, 0))
      else do
        match ← look (UInt64.ofNat address) with
        | some image => return .inr image
        | none => return .inl (UInt64.ofNat (level.next address)) := by
  have rounded := scanned.rounds nextPtr
  rw [here] at rounded
  rw [scanBody_of_rounded scanned.small scanned.smallest look rounded (here ▸ wrapUp_lt _ _),
    scanned.ends]
  rfl

variable {nextPtr : UInt64} (here : wrapUp level.alignment nextPtr.toNat = address)

include here

theorem scanBody_stops_iff (result : Image) :
    scanBody round mask minimum level.size look stop nextPtr = .ok (.inr result) ↔
      level.Stops address ∧ result = (0, 0) ∨
        ¬level.Stops address ∧ look (UInt64.ofNat address) = .ok (some result) := by
  rw [scanBody_at scanned look here, Stops]
  by_cases breaks : Breaks level.least level.last level.size address
  · simp [breaks, eq_comm]
  · cases look (UInt64.ofNat address) with
    | error fault => simp [breaks]
    | ok found => cases found <;> simp [breaks]

theorem scanBody_goes_iff (next : UInt64) :
    scanBody round mask minimum level.size look stop nextPtr = .ok (.inl next) ↔
      ¬level.Stops address ∧ look (UInt64.ofNat address) = .ok none ∧
        next = UInt64.ofNat (level.next address) := by
  rw [scanBody_at scanned look here, Stops]
  by_cases breaks : Breaks level.least level.last level.size address
  · simp [breaks]
  · rw [if_neg breaks]
    cases look (UInt64.ofNat address) with
    | error fault => simp
    | ok found => cases found <;> simp [breaks, eq_comm]

theorem scanBody_fault {fault : Fault}
    (faulted : scanBody round mask minimum level.size look stop nextPtr = .error fault) :
    look (UInt64.ofNat address) = .error fault := by
  rw [scanBody_at scanned look here] at faulted
  split at faulted
  · cases faulted
  · cases looked : look (UInt64.ofNat address) with
    | error other =>
      rw [looked, Exec.error_bind, Except.error.injEq] at faulted
      rw [faulted]
    | ok found =>
      rw [looked] at faulted
      cases found <;> cases faulted

theorem toNat_next : (UInt64.ofNat (level.next address)).toNat = level.next address := by
  have bound : address < 2 ^ 32 := here ▸ wrapUp_lt _ _
  have small := scanned.small (UInt64.ofNat address)
  unfold next
  rw [UInt64.toNat_ofNat', Nat.mod_eq_of_lt (by omega)]

end Step

theorem walks_iff {round mask minimum stop : UInt64}
    (scanned : level.ScannedBy round mask minimum stop) (look : UInt64 → Exec (Option Image))
    (Extra : Nat → Prop) (start : UInt64) (result : Image) :
    Loop.Walks (scanBody round mask minimum level.size look stop)
        (fun nextPtr => level.MeetsAt Extra (wrapUp level.alignment nextPtr.toNat)) start result ↔
      ∃ chunks address, level.Row (wrapUp level.alignment start.toNat) chunks address ∧
        (∀ chunk ∈ chunks, look (UInt64.ofNat chunk) = .ok none ∧ Extra chunk) ∧
        (result = (0, 0) ∧ level.Gap address ∨
          level.Whole address ∧ look (UInt64.ofNat address) = .ok (some result) ∧
            Extra address) := by
  constructor
  · intro walks
    induction walks with
    | @stop nextPtr result meets stopped =>
      refine ⟨[], _, .nil, by simp, ?_⟩
      rcases (scanBody_stops_iff scanned look rfl result).mp stopped with
        ⟨stops, none⟩ | ⟨goes, taken⟩
      · refine Or.inl ⟨none, ?_⟩
        by_cases behind : level.last < wrapUp level.alignment nextPtr.toNat
        · exact Or.inl behind
        · have inside := meets.1 (Nat.not_lt.mp behind)
          exact Or.inr ⟨inside.1, inside.2, stops⟩
      · have inside := meets.1 (Nat.not_lt.mp fun behind => goes (Or.inl behind))
        exact Or.inr ⟨⟨inside.1, goes⟩, taken, meets.2 goes⟩
    | @next nextPtr next result meets stepped _ induction =>
      rcases (scanBody_goes_iff scanned look rfl next).mp stepped with ⟨goes, passed, rfl⟩
      rcases induction with ⟨chunks, address, row, others, ending⟩
      rw [toNat_next scanned rfl] at row
      have inside := meets.1 (Nat.not_lt.mp fun behind => goes (Or.inl behind))
      refine ⟨_ :: chunks, address, .cons ⟨inside.1, goes⟩ row, ?_, ending⟩
      exact List.forall_mem_cons.mpr ⟨⟨passed, meets.2 goes⟩, others⟩
  · rintro ⟨chunks, address, row, passed, ending⟩
    generalize here : wrapUp level.alignment start.toNat = first at row
    induction row generalizing start with
    | nil =>
      subst here
      rcases ending with ⟨none, gap⟩ | ⟨whole, taken, extra⟩
      · exact .stop (gap.meetsAt Extra)
          ((scanBody_stops_iff scanned look rfl result).mpr (Or.inl ⟨gap.stops, none⟩))
      · exact .stop (whole.meetsAt scanned extra)
          ((scanBody_stops_iff scanned look rfl result).mpr (Or.inr ⟨whole.2, taken⟩))
    | cons whole _ induction =>
      subst here
      rw [List.forall_mem_cons] at passed
      have goes := (scanBody_goes_iff scanned look rfl _).mpr ⟨whole.2, passed.1.1, rfl⟩
      refine .next (whole.meetsAt scanned passed.1.2) goes (induction _ passed.2 ending ?_)
      rw [toNat_next scanned rfl]

end Level

namespace Search

variable {search : Search}

theorem fileLevel_scanned (search : Search) :
    search.fileLevel.ScannedBy 7 0xfffffff8 (24 + 4) search.last where
  rounds address := round_and_mask 3 (by decide) rfl rfl address
  small address := size24_lt search.memory (address + 20)
  smallest := rfl
  ends := rfl
  few := (by decide : 24 ≤ 28)
  inside := Nat.le_refl _

/-! ## The sections of a file -/

def SectionsMeet (search : Search) (file : Nat) : Prop :=
  ∀ nextPtr, Loop.Visits (search.sectionBody (UInt64.ofNat file)) (UInt64.ofNat file + 24)
      nextPtr →
    (search.sectionLevel file).MeetsAt (fun _ => True) (wrapUp 4 nextPtr.toNat)

variable {sectionType : UInt8} {fuel : Nat}

theorem sectionImage_eq_none {memory : ByteMemory} {header : UInt64} :
    sectionImage memory sectionType header = none ↔ memory (header + 3) ≠ sectionType := by
  rw [sectionImage]
  split <;> simp_all

theorem sectionImage_eq_some {memory : ByteMemory} {header : UInt64} {image : Image} :
    sectionImage memory sectionType header = some image ↔ memory (header + 3) = sectionType ∧
      image = (header + 4, sectionSize memory header - 4) := by
  rw [sectionImage]
  split <;> simp_all [eq_comm]

section File

variable {file : Nat} (below : file < 2 ^ 32)

include below

theorem sections_address : (UInt64.ofNat file + 24).toNat = file + 24 ∧
    (search.sectionsEnd (UInt64.ofNat file)).toNat = search.fileLevel.next file := by
  have small : (ffsSize search.memory (UInt64.ofNat file)).toNat < 2 ^ 24 := size24_lt _ _
  have start : UInt64.ofNat file + 24 = UInt64.ofNat (file + 24) := by
    rw [UInt64.ofNat_add]
    rfl
  have stop : search.sectionsEnd (UInt64.ofNat file) =
      UInt64.ofNat (file + (ffsSize search.memory (UInt64.ofNat file)).toNat) := by
    rw [sectionsEnd, UInt64.ofNat_add, UInt64.ofNat_toNat, UInt64.add_assoc, UInt64.add_comm 24,
      UInt64.sub_add_cancel]
  rw [stop, start, UInt64.toNat_ofNat', UInt64.toNat_ofNat', Nat.mod_eq_of_lt (by omega),
    Nat.mod_eq_of_lt (by omega)]
  exact ⟨rfl, rfl⟩

variable (whole : search.fileLevel.Whole file)

include whole

theorem sectionLevel_scanned : (search.sectionLevel file).ScannedBy 3 0xfffffffc 4
    (search.sectionsEnd (UInt64.ofNat file)) where
  rounds address := round_and_mask 2 (by decide) rfl rfl address
  small address := size24_lt search.memory address
  smallest := rfl
  ends := (sections_address below).2
  few := Nat.le_refl 4
  inside := (Level.whole_iff.mp whole).2.2

theorem sections_iff (image : Image) :
    (∃ fuel, getImageFromSections search.memory fuel (UInt64.ofNat file + 24)
        (ffsSize search.memory (UInt64.ofNat file) - 24) search.sectionType = .ok image) ∧
      search.SectionsMeet file ↔
    image = (0, 0) ∧ search.NoImage file ∨
      ∃ address, search.ImageAt file address ∧ image = search.payload address := by
  have start := (@sections_address search file below).1
  have walks := Level.walks_iff (sectionLevel_scanned below whole)
    (fun header => .ok (sectionImage search.memory search.sectionType header)) (fun _ => True)
    (UInt64.ofNat file + 24) image
  simp only [Loop.walks_iff, start, Except.ok.injEq, sectionImage_eq_none, sectionImage_eq_some,
    and_true] at walks
  refine walks.trans ⟨?_, ?_⟩
  · rintro ⟨chunks, address, row, others, none | ⟨inside, sameType, found⟩⟩
    · exact Or.inl ⟨none.1, address, ⟨chunks, row, others⟩, none.2⟩
    · exact Or.inr ⟨address, ⟨⟨chunks, row, others⟩, inside, sameType⟩, found⟩
  · rintro (⟨none, address, ⟨chunks, row, others⟩, gap⟩ |
      ⟨address, ⟨⟨chunks, row, others⟩, inside, sameType⟩, found⟩)
    · exact ⟨chunks, address, row, others, Or.inl ⟨none, gap⟩⟩
    · exact ⟨chunks, address, row, others, Or.inr ⟨inside, sameType, found⟩⟩

theorem ImageAt.payload_bounds {address : Nat} (found : search.ImageAt file address) :
    (search.payload address).1.toNat = address + 4 ∧ search.base.toNat ≤ address ∧
      address + 4 + (search.payload address).2.toNat ≤ search.last.toNat := by
  have small : (ffsSize search.memory (UInt64.ofNat file)).toNat < 2 ^ 24 := size24_lt _ _
  have fits : search.fileLevel.next file ≤ search.last.toNat := (Level.whole_iff.mp whole).2.2
  rcases Level.whole_iff.mp found.2.1 with ⟨low, large, inside⟩
  change 4 ≤ (sectionSize search.memory (UInt64.ofNat address)).toNat at large
  change address + (sectionSize search.memory (UInt64.ofNat address)).toNat ≤
    search.fileLevel.next file at inside
  have bound : search.fileLevel.next file < 2 ^ 33 := by
    change file + (ffsSize search.memory (UInt64.ofNat file)).toNat < 2 ^ 33
    omega
  have start : (UInt64.ofNat address + 4).toNat = address + 4 := by
    change (address % 2 ^ 64 + 4) % 2 ^ 64 = address + 4
    omega
  have size : (sectionSize search.memory (UInt64.ofNat address) - 4).toNat =
      (sectionSize search.memory (UInt64.ofNat address)).toNat - 4 :=
    UInt64.toNat_sub_of_le _ _ (UInt64.le_iff_toNat_le.mpr large)
  refine ⟨start, low, ?_⟩
  rw [payload, size]
  omega

theorem ImageAt.payload_ne_zero {address : Nat} (found : search.ImageAt file address) :
    (search.payload address).1 ≠ 0 := by
  intro zero
  have start := (found.payload_bounds below whole).1
  rw [zero] at start
  change 0 = address + 4 at start
  omega

end File

/-! ## The files of a volume -/

theorem look_mono {more : Nat} (enough : fuel ≤ more) {header : UInt64}
    {found : Option Image} (returned : search.look fuel header = .ok found) :
    search.look more header = .ok found := by
  rw [look, fileImage] at returned ⊢
  split at returned
  · rename_i other
    rw [if_pos other]
    exact returned
  · rename_i same
    rw [if_neg same]
    cases searched : getImageFromSections search.memory fuel (header + 24)
        (ffsSize search.memory header - 24) search.sectionType with
    | error fault =>
      rw [searched] at returned
      cases returned
    | ok image =>
      have again : getImageFromSections search.memory more (header + 24)
          (ffsSize search.memory header - 24) search.sectionType = .ok image :=
        Loop.run_mono enough searched
      rw [searched] at returned
      rw [again]
      exact returned

theorem fileBody_follows {more : Nat} (enough : fuel ≤ more) (nextPtr : UInt64)
    (progress : UInt64 ⊕ Image) (once : search.fileBody fuel nextPtr = .ok progress) :
    search.fileBody more nextPtr = .ok progress := by
  have scanned := search.fileLevel_scanned
  cases progress with
  | inl next =>
    have goes := (Level.scanBody_goes_iff scanned (search.look fuel) rfl next).mp once
    exact (Level.scanBody_goes_iff scanned (search.look more) rfl next).mpr
      ⟨goes.1, look_mono enough goes.2.1, goes.2.2⟩
  | inr image =>
    apply (Level.scanBody_stops_iff scanned (search.look more) rfl image).mpr
    rcases (Level.scanBody_stops_iff scanned (search.look fuel) rfl image).mp once with
      none | ⟨goes, found⟩
    · exact Or.inl none
    · exact Or.inr ⟨goes, look_mono enough found⟩

theorem look_eq_none_iff {header : UInt64} :
    search.look fuel header = .ok none ↔
      (ffsType search.memory header = search.fileType → ∃ size,
        getImageFromSections search.memory fuel (header + 24) (ffsSize search.memory header - 24)
          search.sectionType = .ok (0, size)) := by
  rw [look, fileImage]
  by_cases same : ffsType search.memory header = search.fileType
  · cases getImageFromSections search.memory fuel (header + 24)
        (ffsSize search.memory header - 24) search.sectionType with
    | error fault => simp [same]
    | ok image =>
      rcases image with ⟨image, size⟩
      by_cases null : image = 0 <;> simp [same, null]
  · simp [same]

theorem look_eq_some_iff {header : UInt64} {image : Image} :
    search.look fuel header = .ok (some image) ↔
      ffsType search.memory header = search.fileType ∧ image.1 ≠ 0 ∧
        getImageFromSections search.memory fuel (header + 24) (ffsSize search.memory header - 24)
          search.sectionType = .ok image := by
  rw [look, fileImage]
  by_cases same : ffsType search.memory header = search.fileType
  · rw [if_neg (not_not.mpr same)]
    cases getImageFromSections search.memory fuel (header + 24)
        (ffsSize search.memory header - 24) search.sectionType with
    | error fault => simp
    | ok found =>
      by_cases null : found.1 = 0
      · have other : image.1 ≠ 0 → found ≠ image := fun real equal => real (equal ▸ null)
        simpa [same, null] using other
      · have real : found = image → image.1 ≠ 0 := fun equal => equal ▸ null
        simpa [same, null] using real
  · simp [same]

def FileMeets (search : Search) (file : Nat) : Prop :=
  search.Wanted file → search.SectionsMeet file

section File

variable {file : Nat} (below : file < 2 ^ 32) (whole : search.fileLevel.Whole file)

include below whole

theorem passes_iff :
    (∃ fuel, search.look fuel (UInt64.ofNat file) = .ok none) ∧ search.FileMeets file ↔
      (search.Wanted file → search.NoImage file) := by
  simp only [look_eq_none_iff, FileMeets, Wanted]
  by_cases same : ffsType search.memory (UInt64.ofNat file) = search.fileType
  · simp only [same, forall_const]
    constructor
    · rintro ⟨⟨fuel, size, searched⟩, meets⟩
      rcases (sections_iff below whole _).mp ⟨⟨fuel, searched⟩, meets⟩ with
        none | ⟨address, found, null⟩
      · exact none.2
      · exact absurd (congrArg Prod.fst null).symm (found.payload_ne_zero below whole)
    · intro absent
      rcases (sections_iff below whole (0, 0)).mpr (Or.inl ⟨rfl, absent⟩) with
        ⟨⟨fuel, searched⟩, meets⟩
      exact ⟨⟨fuel, 0, searched⟩, meets⟩
  · simp [same]

theorem takes_iff (image : Image) :
    (∃ fuel, search.look fuel (UInt64.ofNat file) = .ok (some image)) ∧ search.FileMeets file ↔
      search.Wanted file ∧
        ∃ address, search.ImageAt file address ∧ image = search.payload address := by
  simp only [look_eq_some_iff, FileMeets, Wanted]
  by_cases same : ffsType search.memory (UInt64.ofNat file) = search.fileType
  · simp only [same, forall_const, true_and]
    constructor
    · rintro ⟨⟨fuel, real, searched⟩, meets⟩
      rcases (sections_iff below whole _).mp ⟨⟨fuel, searched⟩, meets⟩ with none | found
      · exact absurd (congrArg Prod.fst none.1) real
      · exact found
    · rintro ⟨address, found, rfl⟩
      rcases (sections_iff below whole (search.payload address)).mpr
        (Or.inr ⟨address, found, rfl⟩) with ⟨⟨fuel, searched⟩, meets⟩
      exact ⟨⟨fuel, found.payload_ne_zero below whole, searched⟩, meets⟩
  · simp [same]

end File

/-! ## The whole search -/

def PointerMeets (search : Search) (nextPtr : UInt64) : Prop :=
  search.fileLevel.MeetsAt search.FileMeets (wrapUp 8 nextPtr.toNat)

theorem filesAddress_wrapUp : wrapUp 8 search.filesAddress.toNat =
    wrapUp 8 (search.base.toNat + (headerLength search.memory search.base).toNat) := by
  rw [filesAddress, UInt64.toNat_add, UInt16.toNat_toUInt64]
  unfold wrapUp alignUp
  omega

theorem walks_fileBody_iff (fuel : Nat) (image : Image) :
    Loop.Walks (search.fileBody fuel) search.PointerMeets search.filesAddress image ↔
      ∃ files stop, search.fileLevel.Row
          (wrapUp 8 (search.base.toNat + (headerLength search.memory search.base).toNat))
          files stop ∧
        (∀ file ∈ files, search.look fuel (UInt64.ofNat file) = .ok none ∧ search.FileMeets file) ∧
        (image = (0, 0) ∧ search.fileLevel.Gap stop ∨
          search.fileLevel.Whole stop ∧
            search.look fuel (UInt64.ofNat stop) = .ok (some image) ∧
            search.FileMeets stop) := by
  rw [← filesAddress_wrapUp]
  exact Level.walks_iff search.fileLevel_scanned (search.look fuel) _ _ image

theorem laidOut_of_walks {image : Image}
    (walks : Loop.Walks (search.fileBody fuel) search.PointerMeets search.filesAddress image) :
    search.LaidOut := by
  rcases (walks_fileBody_iff fuel image).mp walks with ⟨files, stop, row, passed, ending⟩
  have bounds := row.bounded (wrapUp_lt _ _)
  refine ⟨files, stop, row, fun file member => ?_, ?_⟩
  · have here := passed file member
    exact (passes_iff (bounds.1 file member) (row.whole file member)).mp ⟨⟨fuel, here.1⟩, here.2⟩
  · rcases ending with ⟨_, gap⟩ | ⟨whole, taken, meets⟩
    · exact Or.inl gap
    · rcases (takes_iff bounds.2 whole image).mp ⟨⟨fuel, taken⟩, meets⟩ with
        ⟨same, address, found, _⟩
      exact Or.inr ⟨whole, same, address, found⟩

theorem LaidOut.walks (laid : search.LaidOut) :
    ∃ enough image,
      (∀ fuel, enough ≤ fuel →
        Loop.Walks (search.fileBody fuel) search.PointerMeets search.filesAddress image) ∧
      (image.1 ≠ 0 → search.base.toNat ≤ image.1.toNat ∧
        image.1.toNat + image.2.toNat ≤ search.last.toNat) := by
  rcases laid with ⟨files, stop, row, absent, ending⟩
  have bounds := row.bounded (wrapUp_lt _ _)
  have passes : ∀ file ∈ files,
      (∃ fuel, search.look fuel (UInt64.ofNat file) = .ok none) ∧ search.FileMeets file :=
    fun file member =>
      (passes_iff (bounds.1 file member) (row.whole file member)).mpr (absent file member)
  have settles : ∀ file ∈ files,
      SettlesTo (fun fuel => search.look fuel (UInt64.ofNat file)) (.ok none) := by
    intro file member
    rcases (passes file member).1 with ⟨fuel, returned⟩
    exact ⟨fuel, fun more many => look_mono many returned⟩
  rcases SettlesTo.forall_mem settles with ⟨enough, same⟩
  rcases ending with gap | ⟨whole, sameType, address, found⟩
  · refine ⟨enough, (0, 0), fun fuel many => ?_, fun real => absurd rfl real⟩
    refine (walks_fileBody_iff fuel _).mpr ⟨files, stop, row, fun file member => ?_, ?_⟩
    · exact ⟨same file member fuel many, (passes file member).2⟩
    · exact Or.inl ⟨rfl, gap⟩
  · rcases (takes_iff bounds.2 whole (search.payload address)).mpr
      ⟨sameType, address, found, rfl⟩ with ⟨⟨fuel', taken⟩, meets⟩
    have inside := found.payload_bounds bounds.2 whole
    refine ⟨max enough fuel', search.payload address, fun fuel many => ?_, fun _ => ?_⟩
    · refine (walks_fileBody_iff fuel _).mpr ⟨files, stop, row, fun file member => ?_, ?_⟩
      · exact ⟨same file member fuel (by omega), (passes file member).2⟩
      · exact Or.inr ⟨whole, look_mono (by omega) taken, meets⟩
    · omega

theorem inside_iff {start : Nat} (before : start ≤ search.last.toNat) (size : Nat) :
    search.Inside start size ↔ search.base.toNat ≤ start ∧ start + size ≤ search.last.toNat := by
  have second := search.length.toNat_lt
  rw [last, UInt64.toNat_add] at before ⊢
  rw [Inside]
  omega

theorem toNat_wrapUp (alignment address : Nat) :
    (UInt64.ofNat (wrapUp alignment address)).toNat = wrapUp alignment address := by
  have bound := wrapUp_lt alignment address
  rw [UInt64.toNat_ofNat', Nat.mod_eq_of_lt (by omega)]

theorem goes_iff {file : Nat} (below : file < 2 ^ 32) :
    ¬search.fileLevel.Stops file ↔
      24 + 4 ≤ ffsSize search.memory (UInt64.ofNat file) ∧
        UInt64.ofNat file + ffsSize search.memory (UInt64.ofNat file) ≤ search.last := by
  have small : (ffsSize search.memory (UInt64.ofNat file)).toNat < 2 ^ 24 := size24_lt _ _
  have start : (UInt64.ofNat file).toNat = file := by
    rw [UInt64.toNat_ofNat', Nat.mod_eq_of_lt (by omega)]
  have stop : (UInt64.ofNat file + ffsSize search.memory (UInt64.ofNat file)).toNat =
      file + (ffsSize search.memory (UInt64.ofNat file)).toNat := by
    rw [UInt64.toNat_add, start, Nat.mod_eq_of_lt (by omega)]
  rw [UInt64.le_iff_toNat_le, UInt64.le_iff_toNat_le, stop]
  change ¬Breaks 28 search.last.toNat (ffsSize search.memory) file ↔ 28 ≤ _ ∧ _
  rw [Breaks]
  omega

theorem inspectsFile_iff {header : UInt64} : search.InspectsFile header ↔
    ∃ fuel nextPtr, Loop.Visits (search.fileBody fuel) search.filesAddress nextPtr ∧
      header = UInt64.ofNat (wrapUp 8 nextPtr.toNat) ∧
      wrapUp 8 nextPtr.toNat ≤ search.last.toNat := by
  simp only [InspectsFile, search.fileLevel_scanned.rounds]
  constructor
  · rintro ⟨before, fuel, nextPtr, visits, rfl⟩
    exact ⟨fuel, nextPtr, visits, rfl, (toNat_wrapUp 8 _).symm.trans_le before⟩
  · rintro ⟨fuel, nextPtr, visits, rfl, before⟩
    refine ⟨UInt64.le_iff_toNat_le.mpr ?_, fuel, nextPtr, visits, rfl⟩
    exact (toNat_wrapUp 8 nextPtr.toNat).trans_le before

theorem StaysInside.pointerMeets (stays : search.StaysInside) {nextPtr : UInt64}
    (visits : Loop.Visits (search.fileBody fuel) search.filesAddress nextPtr) :
    search.PointerMeets nextPtr := by
  have below := wrapUp_lt 8 nextPtr.toNat
  have inspects (before : wrapUp 8 nextPtr.toNat ≤ search.last.toNat) :=
    inspectsFile_iff.mpr ⟨fuel, nextPtr, visits, rfl, before⟩
  refine ⟨fun before => ?_, fun goes sameType nextSection visitsSection => ?_⟩
  · have inside := stays.files _ (inspects before)
    rw [toNat_wrapUp] at inside
    exact (inside_iff before 24).mp inside
  · refine ⟨fun before => ?_, fun _ => trivial⟩
    have early : wrapUp 8 nextPtr.toNat ≤ search.last.toNat :=
      Nat.not_lt.mp fun behind => goes (Or.inl behind)
    have header := stays.files _ (inspects early)
    rw [toNat_wrapUp] at header
    have whole : search.fileLevel.Whole (wrapUp 8 nextPtr.toNat) := ⟨header.1, goes⟩
    have scanned := sectionLevel_scanned below whole
    have fits := (goes_iff below).mp goes
    have inside := stays.sections (UInt64.ofNat (wrapUp 4 nextSection.toNat))
      ⟨_, ⟨inspects early, fits.1, fits.2, sameType⟩,
        by rw [UInt64.le_iff_toNat_le, toNat_wrapUp, scanned.ends]; exact before,
        nextSection, visitsSection, scanned.rounds nextSection⟩
    rw [toNat_wrapUp] at inside
    exact (inside_iff (Nat.le_trans before scanned.inside) 4).mp inside

section Meets

variable (meets : ∀ fuel nextPtr,
  Loop.Visits (search.fileBody fuel) search.filesAddress nextPtr → search.PointerMeets nextPtr)

include meets

theorem files_inside (header : UInt64) (inspected : search.InspectsFile header) :
    search.Inside header.toNat 24 := by
  rcases inspectsFile_iff.mp inspected with ⟨fuel, nextPtr, visits, rfl, before⟩
  rw [toNat_wrapUp]
  exact (inside_iff before 24).mpr ((meets fuel nextPtr visits).1 before)

theorem sections_inside (header : UInt64) (inspected : search.InspectsSection header) :
    search.Inside header.toNat 4 := by
  rcases inspected with ⟨file, ⟨entered, large, fits, sameType⟩, before, nextSection, visits, rfl⟩
  rcases inspectsFile_iff.mp entered with ⟨fuel, nextPtr, visitsFile, rfl, early⟩
  have below := wrapUp_lt 8 nextPtr.toNat
  have here := meets fuel nextPtr visitsFile
  have goes := (goes_iff below).mpr ⟨large, fits⟩
  have scanned := sectionLevel_scanned below ⟨(here.1 early).1, goes⟩
  rw [scanned.rounds, UInt64.le_iff_toNat_le, toNat_wrapUp, scanned.ends] at before
  rw [scanned.rounds, toNat_wrapUp]
  exact (inside_iff (Nat.le_trans before scanned.inside) 4).mpr
    ((here.2 goes sameType nextSection visits).1 before)

end Meets

theorem run_fault {inner : Nat} {start : UInt64} {fault : Fault}
    (faulted : Loop.run (search.fileBody inner) fuel start = .error fault) :
    fault = .diverged := by
  by_contra within
  rcases Loop.visits_of_fault faulted within with ⟨nextPtr, _, once⟩
  have looked := Level.scanBody_fault search.fileLevel_scanned _ rfl once
  rw [look, fileImage] at looked
  split at looked
  · cases looked
  · generalize UInt64.ofNat (wrapUp search.fileLevel.alignment nextPtr.toNat) = file at looked
    cases searched : getImageFromSections search.memory inner (file + 24)
        (ffsSize search.memory file - 24) search.sectionType with
    | error other =>
      rw [searched, Exec.error_bind, Except.error.injEq] at looked
      rcases Loop.visits_of_fault searched (looked ▸ within) with ⟨nextSection, _, last⟩
      simp only [scanBody, Exec.ok_bind] at last
      split_ifs at last
      split at last <;> cases last
    | ok image =>
      rw [searched] at looked
      by_cases null : image.1 = 0 <;> simp [null] at looked

/-- The search stays in a volume exactly if whole files lead it to an image or to a gap. -/
theorem staysInside_iff_laidOut (search : Search)
    (signed : search.memory.readUInt32 (search.base + 40) = fvhSignature) :
    search.StaysInside ↔ search.LaidOut := by
  have searches (fuel : Nat) : search.run fuel =
      Loop.run (search.fileBody fuel) fuel search.filesAddress := if_pos signed
  constructor
  · intro stays
    rcases stays.terminates with ⟨outcome, ends, enough, same⟩
    have ran := (searches enough).symm.trans (same enough (Nat.le_refl enough))
    cases outcome with
    | error fault => exact absurd (congrArg Except.error (run_fault ran)) ends
    | ok image =>
      exact laidOut_of_walks (Loop.walks_iff.mpr ⟨⟨enough, ran⟩, fun _ => stays.pointerMeets⟩)
  · intro laid
    rcases laid.walks with ⟨enough, image, walks, inside⟩
    rcases (Loop.walks_iff.mp (walks enough (Nat.le_refl enough))).1 with ⟨budget, returned⟩
    have settles : SettlesTo search.run (.ok image) := by
      refine ⟨max enough budget, fun fuel many => (searches fuel).trans ?_⟩
      exact Loop.run_mono (by omega) (Loop.run_follows (fileBody_follows (by omega)) returned)
    have meets (fuel : Nat) (nextPtr : UInt64)
        (visits : Loop.Visits (search.fileBody fuel) search.filesAddress nextPtr) :
        search.PointerMeets nextPtr :=
      (Loop.walks_iff.mp (walks (max enough fuel) (Nat.le_max_left _ _))).2 nextPtr
        (visits.follows (fileBody_follows (Nat.le_max_right _ _)))
    refine ⟨⟨.ok image, by simp, settles⟩, files_inside meets, sections_inside meets,
      fun found settled real => ?_⟩
    rw [Except.ok.inj (settled.unique settles)] at real ⊢
    have bounds := inside real
    exact (inside_iff (by omega) _).mpr bounds

def headerAt (base : UInt64) : ByteMemory :=
  (ByteMemory.write (fun _ => 0) (base + 40)
    (ByteMemory.littleEndian 4 fvhSignature.toNat)).write (base + 48) [72, 0]

def oneImage : Search where
  memory := (((headerAt 0x1000).write 0x105a [fvFiletypeApplication]).write 0x105c
    [32, 0, 0]).write 0x1060 [8, 0, 0, sectionPe32]
  base := 0x1000
  length := 256
  fileType := fvFiletypeApplication
  sectionType := sectionPe32

theorem staysInside_iff_laidOut_oneImage : oneImage.StaysInside := by
  refine (staysInside_iff_laidOut oneImage rfl).mpr ⟨[], 0x1048, .nil, by simp,
    Or.inr ⟨?_, rfl, 0x1060, ⟨[], .nil, by simp⟩, ?_, rfl⟩⟩
  · exact Level.whole_iff.mpr ⟨by decide, by decide, by decide⟩
  · exact Level.whole_iff.mpr ⟨by decide, by decide, by decide⟩

/-- Behind a volume that is a header only, the search looks at a file header; and it looks
for the files of a volume at 4 GiB in the first page of memory. -/
theorem not_staysInside_headerAt :
    (headerAt 0x1000).readUInt32 (0x1000 + 40) = fvhSignature ∧
      ¬StaysInside ⟨headerAt 0x1000, 0x1000, 72, fvFiletypeApplication, sectionPe32⟩ ∧
      (headerAt 0x100000000).readUInt32 (0x100000000 + 40) = fvhSignature ∧
      ¬StaysInside ⟨headerAt 0x100000000, 0x100000000, 4096, fvFiletypeApplication,
        sectionPe32⟩ := by
  refine ⟨rfl, fun stays => ?_, rfl, fun stays => ?_⟩
  · have inside := stays.files 0x1048 ⟨by decide, 0, _, .start, rfl⟩
    exact absurd inside.2 (by decide)
  · have inside := stays.files 72 ⟨by decide, 0, _, .start, rfl⟩
    exact absurd inside.1 (by decide)

end Search

end HypervisorFirmware.Pi
