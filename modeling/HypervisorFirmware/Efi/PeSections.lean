import Mathlib.Data.List.Induction
import HypervisorFirmware.Efi.PeLoader
import HypervisorFirmware.Foundation.Patches

/-! # Sections of a loaded image

What the loader leaves in the destination, section by section. The loader clears the
bytes behind a section and not those behind its raw data. -/

namespace HypervisorFirmware.Efi

/-! ## What the headers say -/

section Headers

variable (source : Buffer)

def dosHeader : ImageDosHeader := .read source.memory source.base

def ntHeader : ImageNtHeader64 :=
  .read source.memory (source.base + (dosHeader source).eLfanew.toUInt64)

def firstSectionOffset : UInt64 :=
  (dosHeader source).eLfanew.toUInt64 + ImageNtHeader64.optionalHeaderOffset +
    (ntHeader source).fileHeader.sizeOfOptionalHeader.toUInt64

def totalHeaderSize : UInt64 :=
  firstSectionOffset source +
    (ntHeader source).fileHeader.numberOfSections.toUInt64 * UInt64.ofNat ImageSectionHeader.size

def sectionHeader (index : Nat) : ImageSectionHeader :=
  .read source.memory (source.base + firstSectionOffset source +
    UInt64.ofNat index * UInt64.ofNat ImageSectionHeader.size)

def sections : List ImageSectionHeader :=
  (List.range (ntHeader source).fileHeader.numberOfSections.toNat).map (sectionHeader source)

end Headers

namespace ImageSectionHeader

def Inside (sourceSize destSize : Nat) (header : ImageSectionHeader) : Prop :=
  (header.virtualSize.toNat = 0 ∨
    header.virtualAddress.toNat + header.virtualSize.toNat + header.virtualSize.toNat ≤
      destSize) ∧
  (header.sizeOfRawData.toNat = 0 ∨
    header.pointerToRawData.toNat + header.sizeOfRawData.toNat ≤ sourceSize) ∧
  (header.sizeOfRawData.toNat = 0 ∨
    header.virtualAddress.toNat + header.sizeOfRawData.toNat ≤ destSize)

instance (sourceSize destSize : Nat) : DecidablePred (Inside sourceSize destSize) :=
  fun _ => inferInstanceAs (Decidable (_ ∧ _ ∧ _))

def place (source dest : Buffer) (header : ImageSectionHeader) : Buffer :=
  (dest.overwrite (header.virtualAddress.toNat + header.virtualSize.toNat)
    (List.replicate header.virtualSize.toNat 0)).overwrite header.virtualAddress.toNat
    (source.slice header.pointerToRawData.toNat header.sizeOfRawData.toNat)

end ImageSectionHeader

def withHeaders (source dest : Buffer) : Buffer :=
  dest.overwrite 0 (source.slice 0 (totalHeaderSize source).toNat)

def imageAfter (source dest : Buffer) (headers : List ImageSectionHeader) : Buffer :=
  headers.foldl (ImageSectionHeader.place source) (withHeaders source dest)

/-! ## Accepted images -/

theorem accepted_headers {source : Buffer} {imageSize : UInt64}
    (accepted : peloaderGetImageInfo source = .ok imageSize) (nonzero : imageSize ≠ 0) :
    source.Contains source.base ImageDosHeader.size ∧
      source.Contains (source.base + (dosHeader source).eLfanew.toUInt64) ImageNtHeader64.size ∧
      imageSize = (ntHeader source).optionalHeader.sizeOfImage.toUInt64 := by
  have rejected : (Except.ok 0 : Exec UInt64) ≠ .ok imageSize := by
    rw [Ne, Except.ok.injEq]
    exact nonzero.symm
  rw [peloaderGetImageInfo] at accepted
  by_cases dos : source.Contains source.base ImageDosHeader.size
  · by_cases nt : source.Contains (source.base + (dosHeader source).eLfanew.toUInt64)
      ImageNtHeader64.size
    · refine ⟨dos, nt, ?_⟩
      rw [Buffer.load_inside dos, Exec.ok_bind, ← dosHeader] at accepted
      dsimp only at accepted
      rw [Buffer.load_inside nt, Exec.ok_bind, ← ntHeader] at accepted
      simp only [Exec.pure_eq_ok] at accepted
      split_ifs at accepted
      all_goals first | exact absurd accepted rejected | exact (Except.ok.inj accepted).symm
    · rw [Buffer.load_inside dos, Exec.ok_bind, ← dosHeader] at accepted
      dsimp only at accepted
      rw [Buffer.load_outside nt, Exec.error_bind] at accepted
      split_ifs at accepted
      all_goals exact absurd accepted rejected
  · rw [Buffer.load_outside dos, Exec.error_bind] at accepted
    split_ifs at accepted
    exact absurd accepted rejected

/-! ## The table of sections -/

section Table

variable (source : Buffer)

theorem toNat_firstSectionOffset :
    (firstSectionOffset source).toNat = (dosHeader source).eLfanew.toNat + 24 +
      (ntHeader source).fileHeader.sizeOfOptionalHeader.toNat := by
  have lfanew := (dosHeader source).eLfanew.toNat_lt
  have optional := (ntHeader source).fileHeader.sizeOfOptionalHeader.toNat_lt
  have offset : ImageNtHeader64.optionalHeaderOffset.toNat = 24 := rfl
  rw [firstSectionOffset, UInt64.toNat_add, UInt64.toNat_add, UInt32.toNat_toUInt64,
    UInt16.toNat_toUInt64, offset]
  omega

theorem toNat_mul_size (index : UInt64) (small : index.toNat < 2 ^ 16) :
    (index * UInt64.ofNat ImageSectionHeader.size).toNat = index.toNat * 40 := by
  have size : (UInt64.ofNat ImageSectionHeader.size).toNat = 40 := rfl
  rw [UInt64.toNat_mul, size]
  omega

theorem toNat_totalHeaderSize : (totalHeaderSize source).toNat = (firstSectionOffset source).toNat +
      (ntHeader source).fileHeader.numberOfSections.toNat * 40 := by
  have lfanew := (dosHeader source).eLfanew.toNat_lt
  have optional := (ntHeader source).fileHeader.sizeOfOptionalHeader.toNat_lt
  have count := (ntHeader source).fileHeader.numberOfSections.toNat_lt
  have first := toNat_firstSectionOffset source
  have table := toNat_mul_size (ntHeader source).fileHeader.numberOfSections.toUInt64
    (by rwa [UInt16.toNat_toUInt64])
  rw [UInt16.toNat_toUInt64] at table
  rw [totalHeaderSize, UInt64.toNat_add, table]
  omega

theorem contains_sectionHeader (inside : (totalHeaderSize source).toNat ≤ source.size) {index : Nat}
    (below : index < (ntHeader source).fileHeader.numberOfSections.toNat) :
    source.Contains (source.base + firstSectionOffset source +
      UInt64.ofNat index * UInt64.ofNat ImageSectionHeader.size) ImageSectionHeader.size := by
  have count := (ntHeader source).fileHeader.numberOfSections.toNat_lt
  have lfanew := (dosHeader source).eLfanew.toNat_lt
  have optional := (ntHeader source).fileHeader.sizeOfOptionalHeader.toNat_lt
  have first := toNat_firstSectionOffset source
  have total := toNat_totalHeaderSize source
  have size : ImageSectionHeader.size = 40 := rfl
  have small : (UInt64.ofNat index).toNat = index := by
    rw [UInt64.toNat_ofNat']
    omega
  have table := toNat_mul_size (UInt64.ofNat index) (by omega)
  rw [UInt64.add_assoc, Buffer.contains_base_add, UInt64.toNat_add, table, small,
    Nat.mod_eq_of_lt (by omega)]
  omega

end Table

/-! ## What is written -/

namespace ImageSectionHeader

/-- What the placing of a section writes at an index. The raw data is copied after the
fill. -/
def written (source : Buffer) (header : ImageSectionHeader) (index : Nat) : Option UInt8 :=
  let start := header.virtualAddress.toNat
  let fill := start + header.virtualSize.toNat
  if start ≤ index ∧ index < start + header.sizeOfRawData.toNat then
    some (source.byte (header.pointerToRawData.toNat + (index - start)))
  else if fill ≤ index ∧ index < fill + header.virtualSize.toNat then some 0
  else none

theorem byte_place (source dest : Buffer) (header : ImageSectionHeader) {index : Nat}
    (inside : index < dest.size) :
    (header.place source dest).byte index =
      (header.written source index).getD (dest.byte index) := by
  rw [place, Buffer.byte_overwrite _ _ _ (by rwa [Buffer.size_overwrite]), Buffer.length_slice,
    Buffer.byte_overwrite dest _ _ inside, List.length_replicate, written]
  split_ifs with raw fill
  · exact Buffer.getD_slice source (by omega)
  · rw [List.getD, List.getElem?_replicate, if_pos (by omega)]
    rfl
  · rfl

end ImageSectionHeader

/-- The last byte that the headers and sections write at an index. -/
def lastWrite (source : Buffer) (headers : List ImageSectionHeader) (index : Nat) :
    Option UInt8 :=
  (headers.reverse.findSome? fun header => header.written source index).or
    (if index < (totalHeaderSize source).toNat then some (source.byte index) else none)

/-- The bytes of a destination behind the copies and fills. -/
def loadedImage (source dest : Buffer) : Buffer where
  base := dest.base
  bytes := (List.range dest.size).map fun index =>
    (lastWrite source (sections source) index).getD (dest.byte index)
  bounded := by
    rw [List.length_map, List.length_range]
    exact dest.bounded

section Image

variable (source dest : Buffer)

theorem place_sameObject (header : ImageSectionHeader) :
    Buffer.SameObject dest (header.place source dest) :=
  (Buffer.overwrite_sameObject _ _ _).trans (Buffer.overwrite_sameObject _ _ _)

theorem lastWrite_append (before after : List ImageSectionHeader) (index : Nat) :
    lastWrite source (before ++ after) index =
      (after.reverse.findSome? fun header => header.written source index).or
        (lastWrite source before index) := by
  rw [lastWrite, List.reverse_append, List.findSome?_append, Option.or_assoc, lastWrite]

theorem lastWrite_of_before {before after : List ImageSectionHeader} {index : Nat}
    (below : ∀ header ∈ after, index < header.virtualAddress.toNat) :
    lastWrite source (before ++ after) index = lastWrite source before index := by
  have nothing : after.reverse.findSome? (fun header => header.written source index) = none := by
    rw [List.findSome?_eq_none_iff]
    intro header member
    have first := below header (List.mem_reverse.mp member)
    rw [ImageSectionHeader.written, if_neg (by omega), if_neg (by omega)]
  rw [lastWrite_append, nothing, Option.none_or]

theorem imageAfter_sameObject (headers : List ImageSectionHeader) :
    Buffer.SameObject dest (imageAfter source dest headers) := by
  induction headers using List.reverseRecOn with
  | nil => exact Buffer.overwrite_sameObject dest _ _
  | append_singleton before header induction =>
    rw [imageAfter, List.foldl_concat]
    exact induction.trans (place_sameObject source _ header)

theorem byte_imageAfter (headers : List ImageSectionHeader) {index : Nat}
    (inside : index < dest.size) :
    (imageAfter source dest headers).byte index =
      (lastWrite source headers index).getD (dest.byte index) := by
  induction headers using List.reverseRecOn with
  | nil =>
    rw [imageAfter, List.foldl_nil, withHeaders, Buffer.byte_overwrite dest _ _ inside,
      Buffer.length_slice, lastWrite, List.reverse_nil, List.findSome?_nil, Option.none_or]
    split_ifs with first second second
    · exact (Buffer.getD_slice source (by omega)).trans (by simp)
    · omega
    · omega
    · rfl
  | append_singleton before header induction =>
    have sized : index < (imageAfter source dest before).size := by
      rwa [(imageAfter_sameObject source dest before).size]
    rw [imageAfter, List.foldl_concat, ← imageAfter, header.byte_place source _ sized, induction,
      lastWrite_append]
    simp

theorem loadedImage_sameObject : Buffer.SameObject dest (loadedImage source dest) :=
  ⟨rfl, by rw [Buffer.size, loadedImage, List.length_map, List.length_range]⟩

theorem getElem?_loadedImage {index : Nat} (inside : index < dest.size) :
    (loadedImage source dest).bytes[index]? =
      some ((lastWrite source (sections source) index).getD (dest.byte index)) := by
  rw [loadedImage, List.getElem?_map, List.getElem?_range inside, Option.map_some]

theorem imageAfter_sections :
    imageAfter source dest (sections source) = loadedImage source dest := by
  have same := imageAfter_sameObject source dest (sections source)
  have sized := (loadedImage_sameObject source dest).size.trans same.size.symm
  refine Buffer.ext_bytes ⟨same.base.symm, sized⟩ fun index inside => ?_
  rw [same.size] at inside
  rw [byte_imageAfter source dest _ inside, Buffer.byte.eq_1 (loadedImage source dest), List.getD,
    getElem?_loadedImage source dest inside, Option.getD_some]

end Image

/-! ## What the loader does -/

theorem loadSection_eq {source : Buffer}
    (inside : (totalHeaderSize source).toNat ≤ source.size) (dest : Buffer) {index : Nat}
    (below : index < (ntHeader source).fileHeader.numberOfSections.toNat) :
    loadSection source (firstSectionOffset source) dest index =
      if (sectionHeader source index).Inside source.size dest.size then
        .ok ((sectionHeader source index).place source dest)
      else .error .undefined := by
  rw [loadSection, Buffer.load_inside (contains_sectionHeader source inside below), Exec.ok_bind,
    ← sectionHeader]
  generalize sectionHeader source index = header
  have behind : (header.virtualAddress.toUInt64 + header.virtualSize.toUInt64).toNat =
      header.virtualAddress.toNat + header.virtualSize.toNat := by
    have address := header.virtualAddress.toNat_lt
    have size := header.virtualSize.toNat_lt
    rw [UInt64.toNat_add, UInt32.toNat_toUInt64, UInt32.toNat_toUInt64]
    omega
  rw [UInt64.add_assoc, Buffer.write_base_add, behind, List.length_replicate]
  by_cases zeros : header.virtualSize.toNat = 0 ∨ header.virtualAddress.toNat +
      header.virtualSize.toNat + header.virtualSize.toNat ≤ dest.size
  · rw [if_pos zeros, Exec.ok_bind, Buffer.read_base_add, UInt32.toNat_toUInt64]
    by_cases raw : header.sizeOfRawData.toNat = 0 ∨
        header.pointerToRawData.toNat + header.sizeOfRawData.toNat ≤ source.size
    · rw [if_pos raw, Exec.ok_bind, Buffer.write_base_add, Buffer.length_slice,
        UInt32.toNat_toUInt64, Buffer.size_overwrite]
      simp only [ImageSectionHeader.Inside, zeros, raw, true_and]
      rfl
    · rw [if_neg raw, Exec.error_bind, if_neg (fun inside => raw inside.2.1)]
  · rw [if_neg zeros, Exec.error_bind, if_neg (fun inside => zeros inside.1)]

structure SectionsInside (source dest : Buffer) : Prop where
  headersInSource : (totalHeaderSize source).toNat ≤ source.size
  headersInDest : (totalHeaderSize source).toNat ≤ dest.size
  sections : ∀ header ∈ sections source, header.Inside source.size dest.size

instance (source dest : Buffer) : Decidable (SectionsInside source dest) :=
  decidable_of_iff ((totalHeaderSize source).toNat ≤ source.size ∧
      (totalHeaderSize source).toNat ≤ dest.size ∧
      ∀ header ∈ sections source, header.Inside source.size dest.size)
    ⟨fun ⟨first, second, third⟩ => ⟨first, second, third⟩,
      fun ⟨first, second, third⟩ => ⟨first, second, third⟩⟩

theorem loadSections_eq {source : Buffer}
    (inside : (totalHeaderSize source).toNat ≤ source.size) (dest : Buffer) :
    (List.range (ntHeader source).fileHeader.numberOfSections.toNat).foldlM
        (loadSection source (firstSectionOffset source)) dest =
      if ∀ header ∈ sections source, header.Inside source.size dest.size then
        .ok ((sections source).foldl (ImageSectionHeader.place source) dest)
      else .error .undefined := by
  rw [Exec.foldlM_checked (fun image => image.size = dest.size)
    (fun index => (sectionHeader source index).Inside source.size dest.size)
    (fun image index => (sectionHeader source index).place source image) .undefined _ _ _ dest rfl]
  · simp only [sections, List.mem_map, forall_exists_index, and_imp, forall_apply_eq_imp_iff₂,
      List.foldl_map]
  · intro image index same
    rw [(place_sameObject source image _).size, same]
  · intro image index member same
    rw [loadSection_eq inside image (List.mem_range.mp member), same]

theorem peloaderLoadImage_eq {source : Buffer} {imageSize : UInt64}
    (accepted : peloaderGetImageInfo source = .ok imageSize) (nonzero : imageSize ≠ 0)
    (fuel : Nat) (dest : Buffer) :
    peloaderLoadImage fuel dest source =
      if SectionsInside source dest then
        finishImage fuel (ntHeader source).optionalHeader (loadedImage source dest)
      else .error .undefined := by
  rcases accepted_headers accepted nonzero with ⟨dos, nt, _⟩
  have dumped : peDumper source = .ok () := by
    rw [peDumper, Buffer.load_inside dos, Exec.ok_bind, ← dosHeader, Buffer.load_inside nt]
    rfl
  rw [peloaderLoadImage, dumped, Exec.ok_bind, Buffer.load_inside dos, Exec.ok_bind, ← dosHeader,
    Buffer.load_inside nt, Exec.ok_bind, ← ntHeader]
  dsimp only
  rw [← firstSectionOffset, ← totalHeaderSize, Buffer.read_base]
  by_cases inSource : (totalHeaderSize source).toNat ≤ source.size
  · rw [if_pos inSource, Exec.ok_bind, Buffer.write_base, Buffer.length_slice]
    by_cases inDest : (totalHeaderSize source).toNat ≤ dest.size
    · rw [if_pos inDest, Exec.ok_bind, loadSections_eq inSource, Buffer.size_overwrite]
      by_cases fits : ∀ header ∈ sections source, header.Inside source.size dest.size
      · rw [if_pos fits, Exec.ok_bind, if_pos ⟨inSource, inDest, fits⟩, ← imageAfter_sections]
        rfl
      · rw [if_neg fits, Exec.error_bind, if_neg (fun inside => fits inside.sections)]
    · rw [if_neg inDest, Exec.error_bind, if_neg (fun inside => inDest inside.headersInDest)]
  · rw [if_neg inSource, Exec.error_bind, if_neg (fun inside => inSource inside.headersInSource)]

/-! ## Images as they should be -/

def ImageSectionHeader.Laid (source image : Buffer) (header : ImageSectionHeader) : Prop :=
  (∀ index < min header.sizeOfRawData.toNat header.virtualSize.toNat,
    image.bytes[header.virtualAddress.toNat + index]? =
      some (source.byte (header.pointerToRawData.toNat + index))) ∧
  ∀ index, header.virtualAddress.toNat + header.sizeOfRawData.toNat ≤ index →
    index < header.virtualAddress.toNat + header.virtualSize.toNat →
    image.bytes[index]? = some 0

/-- Sections in ascending order behind the headers, inside of the image, and their raw
data inside of the source. -/
structure SectionsWellFormed (source : Buffer) (imageSize : Nat) : Prop where
  ascending : (sections source).Pairwise fun first second =>
    first.virtualAddress.toNat + first.virtualSize.toNat ≤ second.virtualAddress.toNat
  inside : ∀ header ∈ sections source,
    header.virtualAddress.toNat + header.virtualSize.toNat ≤ imageSize
  raw : ∀ header ∈ sections source, header.sizeOfRawData.toNat = 0 ∨
    header.pointerToRawData.toNat + header.sizeOfRawData.toNat ≤ source.size
  headers : ∀ header ∈ sections source,
    (totalHeaderSize source).toNat ≤ header.virtualAddress.toNat

structure LaidOut (source dest image : Buffer) : Prop where
  base : image.base = dest.base
  size : image.size = dest.size
  headers : ∀ index < (totalHeaderSize source).toNat,
    image.bytes[index]? = some (source.byte index)
  sections : ∀ header ∈ sections source, header.Laid source image

def Loads (source dest : Buffer) (result : Exec (UInt64 × Buffer)) : Prop :=
  ∃ image, result = .ok
      (dest.base + (ntHeader source).optionalHeader.addressOfEntryPoint.toUInt64, image) ∧
    LaidOut source dest image

/-- Of the bytes of a section behind its raw data, those that the headers and the sections
before it write are last written as zeros, and the others are zero from the start. -/
def TailsZero (source dest : Buffer) : Prop :=
  ∀ before header after, sections source = before ++ header :: after →
    ∀ index, header.virtualAddress.toNat + header.sizeOfRawData.toNat ≤ index →
      index < header.virtualAddress.toNat + header.virtualSize.toNat →
      (lastWrite source before index).getD (dest.byte index) = 0

theorem finishImage_preferred (fuel : Nat) {header : ImageOptionalHeader64} {dest : Buffer}
    (preferred : dest.base = header.imageBase) :
    finishImage fuel header dest = .ok (dest.base + header.addressOfEntryPoint.toUInt64, dest) := by
  rw [finishImage, relocateImage, preferred, UInt64.sub_self, if_pos rfl, Exec.ok_bind]
  simp only [preferred, Exec.pure_eq_ok]

section Layout

variable {source dest : Buffer} {imageSize : Nat}

variable (wellFormed : SectionsWellFormed source imageSize)

include wellFormed

theorem headers_laidOut (inDest : (totalHeaderSize source).toNat ≤ dest.size) {index : Nat}
    (inHeaders : index < (totalHeaderSize source).toNat) :
    (loadedImage source dest).bytes[index]? = some (source.byte index) := by
  have first : lastWrite source ([] ++ sections source) index = lastWrite source [] index := by
    apply lastWrite_of_before
    intro header member
    exact Nat.lt_of_lt_of_le inHeaders (wellFormed.headers header member)
  rw [getElem?_loadedImage source dest (by omega)]
  rw [List.nil_append] at first
  rw [first, lastWrite, if_pos inHeaders]
  rfl

theorem lastWrite_section {before after : List ImageSectionHeader} {header : ImageSectionHeader}
    (split : sections source = before ++ header :: after) {index : Nat}
    (below : index < header.virtualAddress.toNat + header.virtualSize.toNat) :
    lastWrite source (sections source) index =
      (header.written source index).or (lastWrite source before index) := by
  have ascending := wellFormed.ascending
  rw [split, List.pairwise_append, List.pairwise_cons] at ascending
  rw [split, List.append_cons, lastWrite_of_before, lastWrite_append]
  · simp
  · intro later behind
    exact Nat.lt_of_lt_of_le below (ascending.2.1.1 later behind)

theorem laid_iff_tail_zero (size : dest.size = imageSize) {before after : List ImageSectionHeader}
    {header : ImageSectionHeader} (split : sections source = before ++ header :: after) :
    header.Laid source (loadedImage source dest) ↔
      ∀ index, header.virtualAddress.toNat + header.sizeOfRawData.toNat ≤ index →
        index < header.virtualAddress.toNat + header.virtualSize.toNat →
        (lastWrite source before index).getD (dest.byte index) = 0 := by
  have inImage := wellFormed.inside header (split ▸ List.mem_append_right _ List.mem_cons_self)
  have raw : ∀ index < min header.sizeOfRawData.toNat header.virtualSize.toNat,
      (loadedImage source dest).bytes[header.virtualAddress.toNat + index]? =
        some (source.byte (header.pointerToRawData.toNat + index)) := by
    intro index below
    rw [getElem?_loadedImage source dest (by omega), lastWrite_section wellFormed split (by omega),
      ImageSectionHeader.written, if_pos (by omega), Nat.add_sub_cancel_left]
    rfl
  -- Neither the section nor what comes behind it writes into its tail.
  have tail : ∀ index, header.virtualAddress.toNat + header.sizeOfRawData.toNat ≤ index →
      index < header.virtualAddress.toNat + header.virtualSize.toNat →
      (loadedImage source dest).bytes[index]? =
        some ((lastWrite source before index).getD (dest.byte index)) := by
    intro index behind below
    rw [getElem?_loadedImage source dest (by omega), lastWrite_section wellFormed split below,
      ImageSectionHeader.written, if_neg (by omega), if_neg (by omega), Option.none_or]
  constructor
  · rintro ⟨_, zeros⟩ index behind below
    have zero := zeros index behind below
    rw [tail index behind below] at zero
    exact Option.some.inj zero
  · intro zeros
    refine ⟨raw, fun index behind below => ?_⟩
    rw [tail index behind below, zeros index behind below]

end Layout

/-- An image loaded at its preferred base is as it should be exactly if what the loader
accesses is inside of the buffers, and nothing but zeros is left behind the raw data of
each section. -/
theorem loads_iff_inside_and_cleared (source dest : Buffer) (imageSize : UInt64)
    (accepted : peloaderGetImageInfo source = .ok imageSize) (nonzero : imageSize ≠ 0)
    (wellFormed : SectionsWellFormed source imageSize.toNat)
    (size : dest.size = imageSize.toNat)
    (preferred : dest.base = (ntHeader source).optionalHeader.imageBase) (fuel : Nat) :
    Loads source dest (peloaderLoadImage fuel dest source) ↔
      SectionsInside source dest ∧ TailsZero source dest := by
  rw [peloaderLoadImage_eq accepted nonzero]
  by_cases inside : SectionsInside source dest
  · have same := loadedImage_sameObject source dest
    rw [if_pos inside, finishImage_preferred fuel (same.base.trans preferred), same.base]
    constructor
    · rintro ⟨image, returned, laidOut⟩
      rw [Except.ok.injEq, Prod.mk.injEq] at returned
      refine ⟨inside, ?_⟩
      intro before header after split
      rw [← laid_iff_tail_zero wellFormed size split, returned.2]
      exact laidOut.sections header (split ▸ List.mem_append_right before List.mem_cons_self)
    · rintro ⟨_, zeros⟩
      refine ⟨_, rfl, same.base, same.size, ?_, ?_⟩
      · intro index inHeaders
        exact headers_laidOut wellFormed inside.headersInDest inHeaders
      · intro header member
        rcases List.append_of_mem member with ⟨before, after, split⟩
        exact (laid_iff_tail_zero wellFormed size split).mpr (zeros before header after split)
  · rw [if_neg inside]
    constructor
    · rintro ⟨image, returned, _⟩
      cases returned
    · intro loadable
      exact absurd loadable.1 inside

/-! ## An image with one section -/

namespace OneSection

open ByteMemory (littleEndian)

def bytes (imageSize relocations virtualSize : Nat) (raw : List UInt8) : List UInt8 :=
  -- the DOS header
  littleEndian 2 0x5a4d ++ List.replicate 58 0 ++ littleEndian 4 64 ++
  -- signature and file header
  littleEndian 4 0x4550 ++ littleEndian 2 0x8664 ++ littleEndian 2 1 ++
  List.replicate 12 0 ++ littleEndian 2 240 ++ List.replicate 2 0 ++
  -- the optional header
  littleEndian 2 0x20b ++ List.replicate 14 0 ++ littleEndian 4 368 ++ List.replicate 4 0 ++
  littleEndian 8 0x200000 ++ List.replicate 24 0 ++ littleEndian 4 imageSize ++
  List.replicate 92 0 ++ littleEndian 8 relocations ++ List.replicate 80 0 ++
  -- the section header and the raw data
  List.replicate 8 0 ++ littleEndian 4 virtualSize ++ littleEndian 4 368 ++
  littleEndian 4 raw.length ++ littleEndian 4 368 ++ List.replicate 16 0 ++ raw

def source : Buffer where
  base := 0x10000
  bytes := bytes 384 0 8 [1, 2, 3, 4]
  bounded := by decide +kernel

def dest (fill : UInt8) : Buffer where
  base := 0x200000
  bytes := List.replicate 384 fill
  bounded := by
    rw [List.length_replicate]
    decide

theorem accepted : peloaderGetImageInfo source = .ok 384 := by decide +kernel

theorem sections_eq : sections source = [⟨8, 368, 4, 368⟩] := by decide +kernel

theorem wellFormed : SectionsWellFormed source 384 := by
  have total : (totalHeaderSize source).toNat = 368 := by decide +kernel
  have length : source.size = 372 := by decide +kernel
  refine ⟨?_, ?_, ?_, ?_⟩
  all_goals rw [sections_eq]
  · exact List.pairwise_singleton _ _
  · decide
  · rw [length]
    decide
  · rw [total]
    decide

end OneSection

theorem loads_iff_inside_and_cleared_one_section :
    Loads OneSection.source (OneSection.dest 0)
      (peloaderLoadImage 0 (OneSection.dest 0) OneSection.source) := by
  refine (loads_iff_inside_and_cleared _ _ 384 OneSection.accepted (by decide)
    OneSection.wellFormed (by decide +kernel) (by decide +kernel) 0).mpr
    ⟨by decide +kernel, ?_⟩
  intro before header after split index behind below
  have cleared : ∀ offset < 4, (lastWrite OneSection.source [] (372 + offset)).getD
      ((OneSection.dest 0).byte (372 + offset)) = 0 := by decide +kernel
  rw [OneSection.sections_eq] at split
  cases before with
  | cons _ _ => simp at split
  | nil =>
    rw [List.nil_append, List.cons.injEq] at split
    rw [← split.1] at behind below
    have from372 : 372 ≤ index := behind
    have below376 : index < 376 := below
    have zero := cleared (index - 372) (by omega)
    rwa [Nat.add_sub_of_le from372] at zero

/-- Bytes of the destination that are not zero stay in the section, behind its raw
data. -/
theorem not_loads_into_used_memory :
    peloaderGetImageInfo OneSection.source = .ok 384 ∧
    SectionsWellFormed OneSection.source 384 ∧ (OneSection.dest 0xff).size = 384 ∧
    (OneSection.dest 0xff).base = (ntHeader OneSection.source).optionalHeader.imageBase ∧
    ¬ Loads OneSection.source (OneSection.dest 0xff)
      (peloaderLoadImage 0 (OneSection.dest 0xff) OneSection.source) := by
  refine ⟨OneSection.accepted, OneSection.wellFormed, by decide +kernel, by decide +kernel, ?_⟩
  rintro ⟨image, returned, laidOut⟩
  have stale : (peloaderLoadImage 0 (OneSection.dest 0xff) OneSection.source).map
      (fun result => result.2.bytes[372]?) = .ok (some 0xff) := by decide +kernel
  rw [returned] at stale
  have member : ⟨8, 368, 4, 368⟩ ∈ sections OneSection.source := by
    rw [OneSection.sections_eq]
    exact List.mem_singleton_self _
  have zero : image.bytes[372]? = some 0 :=
    (laidOut.sections _ member).2 372 (by decide) (by decide)
  have used : image.bytes[372]? = some 0xff := Except.ok.inj stale
  rw [zero] at used
  cases used

end HypervisorFirmware.Efi
