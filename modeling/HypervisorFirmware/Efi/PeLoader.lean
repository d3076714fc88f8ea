import HypervisorFirmware.Foundation.Buffer

/-! # The PE loader

`peloader.rs`: the checks on an image, its headers and sections in the destination, and
the base relocations. Source and destination are objects of their own. The structures
have the fields that the loader reads. -/

namespace HypervisorFirmware.Efi

/-! ## Headers -/

def imageDosSignature : UInt16 := 0x5a4d

structure ImageDosHeader where
  eMagic : UInt16
  eLfanew : UInt32
  deriving DecidableEq, Repr

namespace ImageDosHeader

abbrev size : Nat := 64

def read (memory : ByteMemory) (address : UInt64) : ImageDosHeader where
  eMagic := memory.readUInt16 address
  eLfanew := memory.readUInt32 (address + 60)

end ImageDosHeader

def imageFileMachineX64 : UInt16 := 0x8664

structure ImageFileHeader where
  machine : UInt16
  numberOfSections : UInt16
  sizeOfOptionalHeader : UInt16
  deriving DecidableEq, Repr

def ImageFileHeader.read (memory : ByteMemory) (address : UInt64) : ImageFileHeader where
  machine := memory.readUInt16 address
  numberOfSections := memory.readUInt16 (address + 2)
  sizeOfOptionalHeader := memory.readUInt16 (address + 16)

structure ImageDataDirectory where
  virtualAddress : UInt32
  size : UInt32
  deriving DecidableEq, Repr

def ImageDataDirectory.read (memory : ByteMemory) (address : UInt64) : ImageDataDirectory where
  virtualAddress := memory.readUInt32 address
  size := memory.readUInt32 (address + 4)

def imageNtOptionalHdr64Magic : UInt16 := 0x20b

def imageDirectoryEntryBasereloc : UInt64 := 5

structure ImageOptionalHeader64 where
  magic : UInt16
  addressOfEntryPoint : UInt32
  imageBase : UInt64
  sizeOfImage : UInt32
  /-- `data_directory[IMAGE_DIRECTORY_ENTRY_BASERELOC]`. -/
  basereloc : ImageDataDirectory
  deriving DecidableEq, Repr

def ImageOptionalHeader64.read (memory : ByteMemory) (address : UInt64) :
    ImageOptionalHeader64 where
  magic := memory.readUInt16 address
  addressOfEntryPoint := memory.readUInt32 (address + 16)
  imageBase := memory.readUInt64 (address + 24)
  sizeOfImage := memory.readUInt32 (address + 56)
  basereloc := .read memory (address + 112 + 8 * imageDirectoryEntryBasereloc)

def imagePeSignature : UInt32 := 0x4550

structure ImageNtHeader64 where
  signature : UInt32
  fileHeader : ImageFileHeader
  optionalHeader : ImageOptionalHeader64
  deriving DecidableEq, Repr

namespace ImageNtHeader64

abbrev size : Nat := 264

abbrev optionalHeaderOffset : UInt64 := 24

def read (memory : ByteMemory) (address : UInt64) : ImageNtHeader64 where
  signature := memory.readUInt32 address
  fileHeader := .read memory (address + 4)
  optionalHeader := .read memory (address + optionalHeaderOffset)

end ImageNtHeader64

structure ImageSectionHeader where
  virtualSize : UInt32
  virtualAddress : UInt32
  sizeOfRawData : UInt32
  pointerToRawData : UInt32
  deriving DecidableEq, Repr

namespace ImageSectionHeader

abbrev size : Nat := 40

def read (memory : ByteMemory) (address : UInt64) : ImageSectionHeader where
  virtualSize := memory.readUInt32 (address + 8)
  virtualAddress := memory.readUInt32 (address + 12)
  sizeOfRawData := memory.readUInt32 (address + 16)
  pointerToRawData := memory.readUInt32 (address + 20)

end ImageSectionHeader

/-! ## The checks on an image -/

def peloaderGetImageInfo (source : Buffer) : Exec UInt64 := do
  let sourceEnd := source.base + UInt64.ofNat source.size
  if source.base + UInt64.ofNat ImageDosHeader.size > sourceEnd then
    return 0
  else
    let dosHeader ← source.load source.base ImageDosHeader.size ImageDosHeader.read
    if dosHeader.eMagic ≠ imageDosSignature then
      return 0
    else
      let currentPtr := source.base + dosHeader.eLfanew.toUInt64
      if currentPtr + UInt64.ofNat ImageNtHeader64.size > sourceEnd then
        return 0
      else
        let ntHeader ← source.load currentPtr ImageNtHeader64.size ImageNtHeader64.read
        if ntHeader.signature ≠ imagePeSignature then
          return 0
        else if ntHeader.fileHeader.machine ≠ imageFileMachineX64 then
          return 0
        else if ntHeader.optionalHeader.magic ≠ imageNtOptionalHdr64Magic then
          return 0
        else
          return ntHeader.optionalHeader.sizeOfImage.toUInt64

/-! ## Relocation -/

inductive Relocation
  | skip
  | add (width amount : Nat)
  | unknown
  deriving DecidableEq, Repr

/-- The types of entries that the loader knows: `ABSOLUTE`, `HIGH`, `LOW`, `HIGHLOW` and
`DIR64`. -/
def relocation (delta : UInt64) (relType : Nat) : Relocation :=
  match relType with
  | 0 => .skip
  | 1 => .add 2 (delta.toUInt32 >>> 16).toUInt16.toNat
  | 2 => .add 2 delta.toUInt16.toNat
  | 3 => .add 4 delta.toUInt32.toNat
  | 10 => .add 8 delta.toNat
  | _ => .unknown

def relocationTarget (dest : Buffer) (rel : UInt64) (entry : UInt16) : UInt64 :=
  dest.base + ((entry &&& 0xfff).toUInt64 + (dest.memory.readUInt32 rel).toUInt64)

/-- Relocate one entry. An unknown type gives nothing. -/
def relocateEntry (delta rel relocs : UInt64) (dest : Buffer) : Exec (Option Buffer) := do
  let entry ← dest.load relocs 2 ByteMemory.readUInt16
  match relocation delta (entry >>> 12).toNat with
  | .skip => return some dest
  | .unknown => return none
  | .add width amount =>
    let target := relocationTarget dest rel entry
    let value ← dest.load target width fun memory address => memory.readNat address width
    -- The sum wraps at the width of the pointer.
    return some (← dest.write target (ByteMemory.littleEndian width (value + amount)))

structure EntryState where
  x : Nat
  relocs : UInt64
  dest : Buffer

def relocateEntriesBody (delta rel : UInt64) (count : Nat) (state : EntryState) :
    Exec (EntryState ⊕ (Except UInt64 UInt64 × Buffer)) := do
  if count ≤ state.x then
    return .inr (.ok state.relocs, state.dest)
  else
    match ← relocateEntry delta rel state.relocs state.dest with
    | none => return .inr (.error 0, state.dest)
    | some dest => return .inl ⟨state.x + 1, state.relocs + 2, dest⟩

abbrev sizeOfImageBaseRelocation : Nat := 8

def sizeOfBlock (memory : ByteMemory) (rel : UInt64) : UInt32 := memory.readUInt32 (rel + 4)

/-- The number of entries of a block. The size of its header is subtracted even from a
smaller size. -/
def entryCount (size : UInt32) : Nat :=
  ((size.toUInt64 - UInt64.ofNat sizeOfImageBaseRelocation) / 2).toNat

structure BlockState where
  relBase : UInt64
  dest : Buffer

def relocateImageBody (delta destRelEnd : UInt64) (state : BlockState) :
    Exec (BlockState ⊕ (Except UInt64 Unit × Buffer)) := do
  if state.relBase ≥ destRelEnd then
    return .inr (.ok (), state.dest)
  else
    let size ← state.dest.load state.relBase sizeOfImageBaseRelocation sizeOfBlock
    if size = 0 then
      return .inr (.ok (), state.dest)
    else
      let count := entryCount size
      let relocs := state.relBase + UInt64.ofNat sizeOfImageBaseRelocation
      match ← Loop.run (relocateEntriesBody delta state.relBase count) (count + 1)
        ⟨0, relocs, state.dest⟩ with
      | (.error error, dest) => return .inr (.error error, dest)
      | (.ok relocs, dest) => return .inl ⟨relocs, dest⟩

def relocateImage (fuel : Nat) (dest : Buffer) (destRelBuffer destRelSize imageBase : UInt64) :
    Exec (Except UInt64 Unit × Buffer) :=
  let delta := dest.base - imageBase
  if delta = 0 then .ok (.ok (), dest)
  else
    let destRelEnd := destRelBuffer + destRelSize
    Loop.run (relocateImageBody delta destRelEnd) fuel ⟨destRelBuffer, dest⟩

/-! ## Loading -/

def loadSection (source : Buffer) (firstSectionOffset : UInt64) (dest : Buffer)
    (sectionIndex : Nat) : Exec Buffer := do
  let header ← source.load
    (source.base + firstSectionOffset +
      UInt64.ofNat sectionIndex * UInt64.ofNat ImageSectionHeader.size)
    ImageSectionHeader.size ImageSectionHeader.read
  let dest ← dest.write
    (dest.base + header.virtualAddress.toUInt64 + header.virtualSize.toUInt64)
    (List.replicate header.virtualSize.toNat 0)
  let data ← source.read (source.base + header.pointerToRawData.toUInt64)
    header.sizeOfRawData.toNat
  dest.write (dest.base + header.virtualAddress.toUInt64) data

def peDumper (buffer : Buffer) : Exec Unit := do
  let dosHeader ← buffer.load buffer.base ImageDosHeader.size ImageDosHeader.read
  let _ ← buffer.load (buffer.base + dosHeader.eLfanew.toUInt64) ImageNtHeader64.size
    ImageNtHeader64.read

def finishImage (fuel : Nat) (header : ImageOptionalHeader64) (dest : Buffer) :
    Exec (UInt64 × Buffer) := do
  match ← relocateImage fuel dest (dest.base + header.basereloc.virtualAddress.toUInt64)
    header.basereloc.size.toUInt64 header.imageBase with
  | (.error _, dest) => return (0, dest)
  | (.ok (), dest) => return (dest.base + header.addressOfEntryPoint.toUInt64, dest)

def peloaderLoadImage (fuel : Nat) (dest source : Buffer) : Exec (UInt64 × Buffer) := do
  peDumper source
  let dosHeader ← source.load source.base ImageDosHeader.size ImageDosHeader.read
  let ntHeader ← source.load (source.base + dosHeader.eLfanew.toUInt64) ImageNtHeader64.size
    ImageNtHeader64.read
  let firstSectionOffset := dosHeader.eLfanew.toUInt64 + ImageNtHeader64.optionalHeaderOffset +
    ntHeader.fileHeader.sizeOfOptionalHeader.toUInt64
  let totalHeaderSize := firstSectionOffset +
    ntHeader.fileHeader.numberOfSections.toUInt64 * UInt64.ofNat ImageSectionHeader.size
  let headers ← source.read source.base totalHeaderSize.toNat
  let dest ← dest.write dest.base headers
  let dest ← (List.range ntHeader.fileHeader.numberOfSections.toNat).foldlM
    (loadSection source firstSectionOffset) dest
  finishImage fuel ntHeader.optionalHeader dest

end HypervisorFirmware.Efi
