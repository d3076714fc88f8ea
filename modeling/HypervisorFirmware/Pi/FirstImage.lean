import HypervisorFirmware.Pi.FirmwareVolume

/-! # The first image of a firmware volume

A volume is its header with files behind it, and a file of the application type is its
header with sections behind it. The search takes a file that is smaller than its header
and a section header for the end of the volume, although a file may be a header only.
Where the volume reaches up to 4 GiB, the masks bring it back to address zero. -/

namespace HypervisorFirmware.Pi

/-- Chunks one behind the other from `start` on, each with at least its header, and at
`stop` no other header fits. -/
inductive Chunks (alignment header last : Nat) (size : UInt64 → UInt64) :
    (start : Nat) → List Nat → (stop : Nat) → Prop
  | nil {start : Nat} : last < start + header → Chunks alignment header last size start [] start
  | cons {start stop : Nat} {rest : List Nat} :
      header ≤ (size (UInt64.ofNat start)).toNat →
      start + (size (UInt64.ofNat start)).toNat ≤ last →
      Chunks alignment header last size
        (alignUp alignment (start + (size (UInt64.ofNat start)).toNat)) rest stop →
      Chunks alignment header last size start (start :: rest) stop

abbrev IsApplication (memory : ByteMemory) (file : Nat) : Prop :=
  ffsType memory (UInt64.ofNat file) = fvFiletypeApplication

def SectionsLaid (memory : ByteMemory) (sections : Nat → List Nat) (sectionsStop : Nat → Nat)
    (file : Nat) : Prop :=
  IsApplication memory file →
    Chunks 4 4 (file + (ffsSize memory (UInt64.ofNat file)).toNat) (sectionSize memory)
      (alignUp 4 (file + 24)) (sections file) (sectionsStop file)

def imageOf (memory : ByteMemory) (sections : Nat → List Nat) (file : Nat) : Option Image :=
  if IsApplication memory file then
    (sections file).findSome? fun header => sectionImage memory sectionPe32 (UInt64.ofNat header)
  else none

/-- A firmware volume below 4 GiB: the addresses of its files, and of the sections of
its application files. -/
structure Volume (memory : ByteMemory) (base length : UInt64) where
  files : List Nat
  stop : Nat
  sections : Nat → List Nat
  sectionsStop : Nat → Nat
  aligned : base.toNat % 8 = 0
  below : base.toNat + length.toNat ≤ 2 ^ 32
  signed : memory.readUInt32 (base + 40) = fvhSignature
  headerInside : (headerLength memory base).toNat ≤ length.toNat
  filesLaid : Chunks 8 24 (base.toNat + length.toNat) (ffsSize memory)
    (alignUp 8 (base.toNat + (headerLength memory base).toNat)) files stop
  sectionsLaid : ∀ file ∈ files, SectionsLaid memory sections sectionsStop file

def Volume.firstImage {memory : ByteMemory} {base length : UInt64}
    (volume : Volume memory base length) : Option Image :=
  volume.files.findSome? (imageOf memory volume.sections)

/-- The search returns the first image, and the null image exactly if there is none. -/
def Volume.FindsFirst {memory : ByteMemory} {base length : UInt64}
    (volume : Volume memory base length) : Prop :=
  ∃ image, SettlesTo (fun fuel => getImageFromFv memory fuel base length fvFiletypeApplication
      sectionPe32) (.ok image) ∧
    (∀ found, volume.firstImage = some found → image = found) ∧
    (image = (0, 0) ↔ volume.firstImage = none)

/-- The search gets as far as it has to: in front of the first image no file is smaller
than 28 bytes; and if there is neither an image nor such a file, then whatever the masks
bring the search to at address zero does not look like one. -/
def Reaches (memory : ByteMemory) (sections : Nat → List Nat) (sectionsStop : Nat → Nat)
    (last : Nat) (files : List Nat) (stop : Nat) : Prop :=
  ((files.findSome? (imageOf memory sections)).isSome →
    ∀ file ∈ files.takeWhile fun file => (imageOf memory sections file).isNone,
      28 ≤ (ffsSize memory (UInt64.ofNat file)).toNat) ∧
  (files.findSome? (imageOf memory sections) = none →
    (∃ file ∈ files, (ffsSize memory (UInt64.ofNat file)).toNat < 28) ∨
      (∀ file ∈ files, IsApplication memory file →
        sectionsStop file = 2 ^ 32 →
        SectionScan memory sectionPe32 (file + (ffsSize memory (UInt64.ofNat file)).toNat) 0 none) ∧
      (stop = 2 ^ 32 → FileScan memory fvFiletypeApplication sectionPe32 last 0 none))

def Volume.SearchReaches {memory : ByteMemory} {base length : UInt64}
    (volume : Volume memory base length) : Prop :=
  Reaches memory volume.sections volume.sectionsStop (base.toNat + length.toNat) volume.files
    volume.stop

/-! ## Steps of a scan -/

section Scan

variable {alignment least last : Nat} {size : UInt64 → UInt64}
  {Looks : Nat → Option Image → Prop} {address : Nat} {result : Option Image}

theorem scans_iff_of_breaks (stops : Breaks least last size address) :
    Scans alignment least last size Looks address result ↔ result = none := by
  constructor
  · intro scans
    cases scans with
    | breaks => rfl
    | found goes => exact absurd stops goes
    | passes goes => exact absurd stops goes
  · rintro rfl
    exact .breaks stops

theorem scans_iff_of_goes (goes : ¬ Breaks least last size address) :
    Scans alignment least last size Looks address result ↔
      (result.isSome ∧ Looks address result) ∨
      Looks address none ∧ Scans alignment least last size Looks
        (wrapUp alignment (address + (size (UInt64.ofNat address)).toNat)) result := by
  constructor
  · intro scans
    cases scans with
    | breaks stops => exact absurd stops goes
    | found _ looked => exact Or.inl ⟨rfl, looked⟩
    | passes _ looked scans => exact Or.inr ⟨looked, scans⟩
  · rintro (⟨some, looked⟩ | ⟨looked, scans⟩)
    · obtain ⟨image, rfl⟩ := Option.isSome_iff_exists.mp some
      exact .found goes looked
    · exact .passes goes looked scans

theorem breaks_of_no_room {header : Nat} (few : header ≤ least) (full : last < address + header) :
    Breaks least last size address := by
  by_cases short : (size (UInt64.ofNat address)).toNat < least
  · exact Or.inr (Or.inl short)
  · exact Or.inr (Or.inr (by omega))

theorem not_breaks (large : least ≤ (size (UInt64.ofNat address)).toNat)
    (inside : address + (size (UInt64.ofNat address)).toNat ≤ last) :
    ¬ Breaks least last size address := by
  simp only [Breaks, not_or]
  omega

end Scan

variable {alignment : Nat} {list : List Nat} {sectionType : UInt8}

theorem alignUp_le {address : Nat} (divides : alignment ∣ 2 ^ 32)
    (below : address ≤ 2 ^ 32) : alignUp alignment address ≤ 2 ^ 32 := by
  rcases divides with ⟨count, whole⟩
  have few : (address + (alignment - 1)) / alignment ≤ count := by
    apply Nat.le_of_lt_succ
    apply Nat.div_lt_of_lt_mul
    rw [Nat.mul_succ]
    have positive : alignment ≠ 0 := by
      rintro rfl
      rw [Nat.zero_mul] at whole
      cases whole
    omega
  rw [alignUp, whole, Nat.mul_comm]
  exact Nat.mul_le_mul_left alignment few

section

variable {header last start stop : Nat} {size : UInt64 → UInt64}
  (laid : Chunks alignment header last size start list stop)

include laid

theorem Chunks.eq_nil (full : last < start + header) : list = [] ∧ stop = start := by
  cases laid with
  | nil => exact ⟨rfl, rfl⟩
  | cons large inside => omega

theorem Chunks.stop_eq : stop = start ∨ ∃ address ≤ last, stop = alignUp alignment address := by
  induction laid with
  | nil => exact Or.inl rfl
  | cons _ inside _ induction =>
    rcases induction with here | later
    · exact Or.inr ⟨_, inside, here⟩
    · exact Or.inr later

end

/-! ## The sections of a file -/

variable {memory : ByteMemory}

/-- A scan over the sections of a file finds the first of the type, or goes on at the
end of the sections, which is nowhere below 4 GiB. -/
theorem Chunks.sectionScan_iff {last start stop : Nat}
    (laid : Chunks 4 4 last (sectionSize memory) start list stop) (bounded : last ≤ 2 ^ 32)
    (below : start ≤ 2 ^ 32) (result : Option Image) :
    SectionScan memory sectionType last (start % 2 ^ 32) result ↔
      match list.findSome? fun header => sectionImage memory sectionType (UInt64.ofNat header) with
      | some image => result = some image
      | none =>
        if stop = 2 ^ 32 then SectionScan memory sectionType last 0 result
        else result = none := by
  induction laid with
  | @nil start full =>
    rw [List.findSome?_nil]
    by_cases top : start = 2 ^ 32
    · simp only [top, Nat.mod_self, if_true]
    · rw [Nat.mod_eq_of_lt (by omega)]
      simp only [if_neg top]
      exact scans_iff_of_breaks (breaks_of_no_room (Nat.le_refl 4) full)
  | @cons start stop rest large inside laid induction =>
    have next := alignUp_le (show 4 ∣ 2 ^ 32 by decide) (Nat.le_trans inside bounded)
    rw [Nat.mod_eq_of_lt (by omega), List.findSome?_cons]
    refine (scans_iff_of_goes (not_breaks large inside)).trans ?_
    cases found : sectionImage memory sectionType (UInt64.ofNat start) with
    | some image =>
      constructor
      · rintro (⟨_, same⟩ | ⟨none, _⟩)
        · exact same.symm
        · cases none
      · rintro rfl
        exact Or.inl ⟨rfl, rfl⟩
    | none =>
      refine Iff.trans ?_ (induction next)
      constructor
      · rintro (⟨some, rfl⟩ | ⟨_, scans⟩)
        · cases some
        · exact scans
      · intro scans
        exact Or.inr ⟨rfl, scans⟩

/-! ## The files of a volume -/

variable {sections : Nat → List Nat} {sectionsStop : Nat → Nat} {last : Nat}

theorem imageOf_short {file : Nat} (laid : SectionsLaid memory sections sectionsStop file)
    (short : (ffsSize memory (UInt64.ofNat file)).toNat < 28) :
    imageOf memory sections file = none := by
  rw [imageOf]
  split
  · rename_i application
    have behind : file + 24 ≤ alignUp 4 (file + 24) := by
      unfold alignUp
      omega
    rw [((laid application).eq_nil (by omega)).1, List.findSome?_nil]
  · rfl

section

variable {file : Nat} (laid : SectionsLaid memory sections sectionsStop file)
  (large : 28 ≤ (ffsSize memory (UInt64.ofNat file)).toNat)
  (inside : file + (ffsSize memory (UInt64.ofNat file)).toNat ≤ 2 ^ 32)

include laid large inside

/-- What the scan over files finds in one of them: its image, if it has one. Otherwise it
finds nothing, unless the sections end at 4 GiB. -/
theorem fileLooks_iff (result : Option Image) :
    FileLooks memory fvFiletypeApplication sectionPe32 file result ↔
      match imageOf memory sections file with
      | some image => result = some image
      | none =>
        if IsApplication memory file ∧ sectionsStop file = 2 ^ 32 then
          SectionScan memory sectionPe32 (file + (ffsSize memory (UInt64.ofNat file)).toNat) 0
            result
        else result = none := by
  rw [FileLooks, imageOf]
  by_cases application : IsApplication memory file
  · rw [if_neg (not_not.mpr application), if_pos application]
    simp only [eq_true application, true_and]
    exact (laid application).sectionScan_iff inside (alignUp_le (by decide) (by omega)) result
  · rw [if_pos application, if_neg application]
    simp only [application, false_and, if_false]

theorem SectionsLaid.file_at_top (application : IsApplication memory file)
    (top : sectionsStop file = 2 ^ 32) :
    alignUp 8 (file + (ffsSize memory (UInt64.ofNat file)).toNat) = 2 ^ 32 := by
  rcases (laid application).stop_eq with first | ⟨address, within, rounded⟩
  · unfold alignUp at first
    omega
  · unfold alignUp at rounded ⊢
    omega

end

theorem reaches_cons {file stop : Nat} {rest : List Nat}
    (absent : imageOf memory sections file = none)
    (large : 28 ≤ (ffsSize memory (UInt64.ofNat file)).toNat)
    (ends : ¬ (IsApplication memory file ∧ sectionsStop file = 2 ^ 32)) :
    Reaches memory sections sectionsStop last (file :: rest) stop ↔
      Reaches memory sections sectionsStop last rest stop := by
  have long := Nat.not_lt.mpr large
  have free : (IsApplication memory file →
      sectionsStop file = 2 ^ 32 → SectionScan memory sectionPe32
        (file + (ffsSize memory (UInt64.ofNat file)).toNat) 0 none) ↔ True :=
    iff_true_intro fun application top => absurd ⟨application, top⟩ ends
  simp only [Reaches, List.findSome?_cons, absent, List.takeWhile_cons, Option.isNone_none,
    if_true, List.forall_mem_cons, large, true_and, List.exists_mem_cons_iff, long, false_or, free]

theorem reaches_short {file stop : Nat} {rest : List Nat}
    (absent : imageOf memory sections file = none)
    (short : (ffsSize memory (UInt64.ofNat file)).toNat < 28) :
    (file :: rest).findSome? (imageOf memory sections) = none ↔
      Reaches memory sections sectionsStop last (file :: rest) stop := by
  constructor
  · intro nowhere
    refine ⟨fun present => ?_, fun _ => Or.inl ⟨file, List.mem_cons_self, short⟩⟩
    rw [nowhere] at present
    cases present
  · intro reaches
    by_contra somewhere
    have enough := reaches.1 (Option.isSome_iff_ne_none.mpr somewhere) file (by simp [absent])
    omega

theorem Chunks.fileScan_iff {start stop : Nat} {files : List Nat}
    (laid : Chunks 8 24 last (ffsSize memory) start files stop) (bounded : last ≤ 2 ^ 32)
    (below : start ≤ 2 ^ 32)
    (sectionsLaid : ∀ file ∈ files, SectionsLaid memory sections sectionsStop file) :
    FileScan memory fvFiletypeApplication sectionPe32 last (start % 2 ^ 32)
        (files.findSome? (imageOf memory sections)) ↔
      Reaches memory sections sectionsStop last files stop := by
  induction laid with
  | @nil start full =>
    by_cases top : start = 2 ^ 32
    · simp [Reaches, top]
    · rw [Nat.mod_eq_of_lt (by omega)]
      simp only [Reaches, List.findSome?_nil, top]
      simpa using Scans.breaks (breaks_of_no_room (by decide) full)
  | @cons start stop rest large inside laid induction =>
    have next := alignUp_le (show 8 ∣ 2 ^ 32 by decide) (Nat.le_trans inside bounded)
    have sectionsHere := sectionsLaid start List.mem_cons_self
    have later := induction next fun file member =>
      sectionsLaid file (List.mem_cons_of_mem start member)
    rw [Nat.mod_eq_of_lt (by omega)]
    by_cases short : (ffsSize memory (UInt64.ofNat start)).toNat < 28
    · -- The scan stops here, which is right only if there is no image behind.
      exact (scans_iff_of_breaks (Or.inr (Or.inl short))).trans
        (reaches_short (imageOf_short sectionsHere short) short)
    · have long := Nat.not_lt.mp short
      refine (scans_iff_of_goes (not_breaks long inside)).trans ?_
      have looks := fileLooks_iff sectionsHere long (Nat.le_trans inside bounded)
      rw [looks, looks, List.findSome?_cons]
      cases found : imageOf memory sections start with
      | some image =>
        refine iff_of_true (Or.inl ⟨rfl, rfl⟩) ⟨?_, ?_⟩
        · simp [found]
        · simp [found]
      | none =>
        by_cases wraps : ffsType memory (UInt64.ofNat start) = fvFiletypeApplication ∧
            sectionsStop start = 2 ^ 32
        · have top := sectionsHere.file_at_top long (Nat.le_trans inside bounded) wraps.1 wraps.2
          rcases laid.eq_nil (by omega) with ⟨rfl, rfl⟩
          simp [Reaches, found, wraps, top, long, wrapUp]
        · rw [reaches_cons found long wraps, ← later]
          simp only [if_neg wraps, true_and]
          constructor
          · rintro (⟨present, absent⟩ | scans)
            · rw [absent] at present
              cases present
            · exact scans
          · intro scans
            exact Or.inr scans

theorem FileScan.address_ne_zero {fileType : UInt8} {address : Nat} {image : Image}
    (bounded : last ≤ 2 ^ 32)
    (scans : FileScan memory fileType sectionType last address (some image)) : image.1 ≠ 0 := by
  rcases scans.exists_looks with ⟨file, goes, looked⟩
  rcases sections_of_file bounded goes with ⟨_, _, inside, _⟩
  rw [FileLooks] at looked
  split at looked
  · cases looked
  · exact SectionScan.address_ne_zero inside looked

/-! ## The search in a volume -/

namespace Volume

variable {base length : UInt64}

theorem findsFirst_iff_fileScan (volume : Volume memory base length) :
    volume.FindsFirst ↔
      FileScan memory fvFiletypeApplication sectionPe32 (base.toNat + length.toNat)
        (wrapUp 8 (base.toNat + (headerLength memory base).toNat)) volume.firstImage := by
  have settles (image : Image) := getImageFromFv_settles_iff fvFiletypeApplication sectionPe32
    volume.signed volume.below volume.headerInside image
  constructor
  · rintro ⟨image, searched, same, null⟩
    rcases (settles image).mp searched with ⟨result, scans, rfl⟩
    have agree : result = volume.firstImage := by
      cases result with
      | none => exact (null.mp rfl).symm
      | some found =>
        cases first : volume.firstImage with
        | none =>
          have zero := congrArg Prod.fst (null.mpr first)
          exact absurd zero (FileScan.address_ne_zero volume.below scans)
        | some other => exact congrArg some (same other first)
    exact agree ▸ scans
  · intro scans
    refine ⟨_, (settles _).mpr ⟨_, scans, rfl⟩, ?_, ?_⟩
    · intro found first
      rw [first, Option.getD_some]
    · cases first : volume.firstImage with
      | none => exact iff_of_true rfl rfl
      | some found =>
        rw [first] at scans
        have real := FileScan.address_ne_zero volume.below scans
        refine iff_of_false (fun zero => real (congrArg Prod.fst zero)) (by simp)

theorem findsFirst_iff_searchReaches (volume : Volume memory base length) :
    volume.FindsFirst ↔ volume.SearchReaches := by
  have below := volume.below
  have inside := volume.headerInside
  rw [findsFirst_iff_fileScan]
  exact volume.filesLaid.fileScan_iff below (alignUp_le (by decide) (by omega))
    volume.sectionsLaid

end Volume

/-! ## A pad file and an application -/

section Padded

variable (long : Bool)

def padSize : Nat := if long then 32 else 24

def paddedMemory : ByteMemory := fun address =>
  ByteMemory.ofWords ([0, 0, 0, 0, 0, 0x4856465f, 56] ++
    (if long then [0, 0, 0x2000f00000, 0] else [0, 0, 0x1800f00000]) ++
    [0, 0, 0x2000090000, 0x10000008]) (address - 0x1000)

theorem ffsSize_application :
    (ffsSize (paddedMemory long) (UInt64.ofNat (0x1038 + padSize long))).toNat = 32 := by
  cases long <;> decide

theorem paddedFiles : Chunks 8 24 (0x1058 + padSize long) (ffsSize (paddedMemory long)) 0x1038
    [0x1038, 0x1038 + padSize long] (0x1058 + padSize long) := by
  have first : (ffsSize (paddedMemory long) (UInt64.ofNat 0x1038)).toNat = padSize long := by
    cases long <;> decide
  have second := ffsSize_application long
  have between : alignUp 8 (0x1038 + padSize long) = 0x1038 + padSize long := by
    cases long <;> rfl
  have behind : alignUp 8 (0x1038 + padSize long + 32) = 0x1058 + padSize long := by
    cases long <;> rfl
  apply Chunks.cons
  · rw [first]
    cases long <;> decide
  · rw [first]
    omega
  · rw [first, between]
    apply Chunks.cons
    · rw [second]
      decide
    · rw [second]
      omega
    · rw [second, behind]
      exact .nil (by omega)

theorem paddedSections : Chunks 4 4 (0x1058 + padSize long) (sectionSize (paddedMemory long))
    (0x1050 + padSize long) [0x1050 + padSize long] (0x1058 + padSize long) := by
  have eight : (sectionSize (paddedMemory long) (UInt64.ofNat (0x1050 + padSize long))).toNat =
      8 := by cases long <;> decide
  have behind : alignUp 4 (0x1050 + padSize long + 8) = 0x1058 + padSize long := by
    cases long <;> rfl
  apply Chunks.cons
  · rw [eight]
    decide
  · rw [eight]
    omega
  · rw [eight, behind]
    exact .nil (by omega)

def padded : Volume (paddedMemory long) 0x1000 (if long then 120 else 112) where
  files := [0x1038, 0x1038 + padSize long]
  stop := 0x1058 + padSize long
  sections _ := [0x1050 + padSize long]
  sectionsStop _ := 0x1058 + padSize long
  aligned := by decide
  below := by cases long <;> decide
  signed := by cases long <;> decide
  headerInside := by cases long <;> decide
  filesLaid := by
    have files := paddedFiles long
    cases long <;> exact files
  sectionsLaid := by
    intro file member application
    rcases List.mem_pair.mp member with rfl | rfl
    · exact absurd application (by cases long <;> decide)
    · have sections := paddedSections long
      rw [ffsSize_application long]
      cases long <;> exact sections

end Padded

/-- A pad file of 32 bytes is passed over. -/
theorem findsFirst_iff_searchReaches_padded :
    (padded true).firstImage = some (0x1074, 4) ∧ (padded true).FindsFirst := by
  have first : (padded true).firstImage = some (0x1074, 4) := by decide
  refine ⟨first, (padded true).findsFirst_iff_searchReaches.mpr ⟨fun _ => by decide, ?_⟩⟩
  intro none
  exact absurd (first.symm.trans none) nofun

/-- One of 24 bytes, which is only its header, ends the search. -/
theorem not_findsFirst_padded :
    (padded false).firstImage = some (0x106c, 4) ∧ ¬ (padded false).FindsFirst := by
  have first : (padded false).firstImage = some (0x106c, 4) := by decide
  refine ⟨first, ?_⟩
  rw [Volume.findsFirst_iff_fileScan, first]
  intro scans
  have stops : Breaks 28 0x1070 (ffsSize (paddedMemory false)) 0x1038 := by decide
  have nothing := (scans_iff_of_breaks stops).mp scans
  cases nothing

end HypervisorFirmware.Pi
