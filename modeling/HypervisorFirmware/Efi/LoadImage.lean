import HypervisorFirmware.Alloc.GenericAllocation
import HypervisorFirmware.Efi.LocateDevicePath
import HypervisorFirmware.Efi.PeSections
import HypervisorFirmware.Efi.ProtocolInstallation
import HypervisorFirmware.Efi.TruncatedPath

/-! # Loading an image

`Image::load_image` of `efi/image.rs` and the boot service on top of it. A load obtains
three objects in memory and installs three protocols; none of this is undone when a later
step fails. What is written into the `ImageInfo` has no part in that. -/

namespace HypervisorFirmware.Efi

open Alloc

/-- decf2644-0bc0-4840-b599-134bee0a9e71. -/
def imageInfoGuid : Guid :=
  #v[0x44, 0x26, 0xcf, 0xde, 0xc0, 0x0b, 0x40, 0x48, 0xb5, 0x99, 0x13, 0x4b, 0xee, 0x0a, 0x9e,
    0x71]

/-- The GUID of the loaded image protocol, 5b1b31a1-9562-11d2-8e3f-00a0c969723b. -/
def loadedImageGuid : Guid :=
  #v[0xa1, 0x31, 0x1b, 0x5b, 0x62, 0x95, 0xd2, 0x11, 0x8e, 0x3f, 0x00, 0xa0, 0xc9, 0x69, 0x72,
    0x3b]

abbrev sizeOfImageInfo : UInt64 := 128

abbrev loadedImageOffset : UInt64 := 32

structure ImageState where
  allocator : Allocator
  db : HandleDatabase

/-- What `load_image` is given: a device path in memory, and the source, which is an
object of its own. -/
structure ImageRequest where
  memory : ByteMemory
  devicePath : UInt64
  source : Buffer

/-! ## The model -/

def objectAt (memory : ByteMemory) (address pages : UInt64) : Buffer where
  base := address
  bytes := memory.bytes address (min (4096 * pages.toNat) (2 ^ 64 - address.toNat))
  bounded := by
    have bound := address.toNat_lt
    rw [ByteMemory.length_bytes]
    omega

def allocateData (memory : ByteMemory) (size : UInt64) (allocator : Allocator) :
    Exec (Except Status Buffer × Allocator) := do
  -- The address of the pointer has no part in the allocation.
  let ((status, stored), allocator) ← allocatePool .bootServicesData size 0 allocator
  match stored with
  | none => return (.error status, allocator)
  | some address =>
    return (.ok (objectAt memory address (Calloc.pagesFor size)), allocator)

def dupDevicePath (fuel : Nat) (memory : ByteMemory) (holder : Buffer) (devicePath : UInt64)
    (allocator : Allocator) : Exec (Buffer × Allocator) := do
  let size ← getDevicePathSize holder.memory fuel devicePath
  let (pool, allocator) ← allocateData memory size allocator
  match pool with
  -- The status is not looked at, and the path is copied to the null pointer.
  | .error _ => .error .undefined
  | .ok buffer =>
    let path ← holder.load devicePath size.toNat fun memory address =>
      memory.bytes address size.toNat
    let buffer ← buffer.write buffer.base path
    return (buffer, allocator)

def installProtocolInterface (db : HandleDatabase) (handle : Handle) (guid : Guid)
    (interface : UInt64) : Exec ((Status × Handle) × HandleDatabase) := do
  let ((status, newHandle), db) ← db.installProtocol handle guid interface
  if status = .success then return ((status, newHandle), db)
  else return ((status, handle), db)

def installImage (fuel : Nat) (memory : ByteMemory) (info : Buffer) (state : ImageState) :
    Exec ((Status × Handle) × ImageState) := do
  let ((_, imageHandle), db) ← installProtocolInterface state.db none imageInfoGuid info.base
  let (devicePathNew, allocator) ← dupDevicePath fuel memory info (info.base + sizeOfImageInfo)
    state.allocator
  let _ ← dropFilePathMediaDevicePath fuel devicePathNew.memory devicePathNew.base
  let (_, db) ← installProtocolInterface db none devicePathGuid devicePathNew.base
  let ((status, imageHandle), db) ← installProtocolInterface db imageHandle loadedImageGuid
    (info.base + loadedImageOffset)
  return ((status, imageHandle), ⟨allocator, db⟩)

def loadSource (fuel : Nat) (request : ImageRequest) (info : Buffer) (state : ImageState) :
    Exec ((Status × Handle) × ImageState) := do
  let imageSize ← peloaderGetImageInfo request.source
  if imageSize = 0 then
    return ((.securityViolation, none), state)
  else
    let (pool, allocator) ← allocateData request.memory imageSize state.allocator
    match pool with
    | .error _ => return ((.outOfResources, none), ⟨allocator, state.db⟩)
    | .ok image =>
      let (entryPoint, _) ← peloaderLoadImage fuel image request.source
      if entryPoint = 0 then
        return ((.securityViolation, none), ⟨allocator, state.db⟩)
      else
        installImage fuel request.memory info ⟨allocator, state.db⟩

def loadImage (fuel : Nat) (request : ImageRequest) (state : ImageState) :
    Exec ((Status × Handle) × ImageState) := do
  let devicePathSize ← getDevicePathSize request.memory fuel request.devicePath
  let (pool, allocator) ← allocateData request.memory (sizeOfImageInfo + devicePathSize)
    state.allocator
  match pool with
  | .error status => return ((status, none), ⟨allocator, state.db⟩)
  | .ok info =>
    let info ← info.write (info.base + sizeOfImageInfo)
      (request.memory.bytes request.devicePath devicePathSize.toNat)
    loadSource fuel request info ⟨allocator, state.db⟩

/-- `handle_protocol` reads the entry that the handle points to before anything else. -/
def handleProtocol (db : HandleDatabase) (handle : Handle) (guid : Guid) :
    Exec (Status × UInt64) :=
  match handle with
  | none => .error .undefined
  | some slot => db.handleProtocol slot guid

/-- The boot service `load_image` from the call of `Image::load_image` on. The last argument
is the variable that `image_handle` points to, unless it is null. -/
def bootLoadImage (fuel : Nat) (request : ImageRequest) (state : ImageState)
    (imageHandle : Option Handle) : Exec ((Status × Option Handle) × ImageState) := do
  let ((_, newImageHandle), state) ← loadImage fuel request state
  let (status, loadedImage) ← handleProtocol state.db newImageHandle loadedImageGuid
  -- A reference is made of the interface, whatever the status is.
  if loadedImage = 0 then .error .undefined
  else if status = .success then
    return ((status, imageHandle.map fun _ => newImageHandle), state)
  else
    return ((status, imageHandle), state)

/-! ## Objects in the pool -/

abbrev dataOutcome (size : UInt64) (map : MemoryMap) : (Status × UInt64) × MemoryMap :=
  map.allocate .allocateAnyPages .bootServicesData (Calloc.pagesFor size) 0

def dataMap (size : UInt64) (map : MemoryMap) : MemoryMap := (dataOutcome size map).2

def dataObject (memory : ByteMemory) (size : UInt64) (map : MemoryMap) : Buffer :=
  objectAt memory (dataOutcome size map).1.2 (Calloc.pagesFor size)

abbrev NoData (size : UInt64) (map : MemoryMap) : Prop :=
  Calloc.NoMemory (Calloc.pagesFor size) map.regions

section Pool

variable {allocator : Allocator} {map : MemoryMap} {size : UInt64}

theorem dataOutcome_success_iff : (dataOutcome size map).1.1 = .success ↔ ¬NoData size map :=
  Calloc.allocate_success_iff map .bootServicesData _

theorem allocateData_none (represents : allocator.Represents map) (none : NoData size map)
    (memory : ByteMemory) :
    ∃ status next, status ≠ .success ∧
      allocateData memory size allocator = .ok (.error status, next) ∧
      next.Represents (dataMap size map) := by
  rcases allocatePool_represents represents .bootServicesData size 0 with ⟨next, returned, kept⟩
  have failed := mt dataOutcome_success_iff.mp (not_not.mpr none)
  refine ⟨_, next, failed, ?_, kept⟩
  rw [allocateData, returned, Exec.ok_bind]
  simp only [if_neg failed]
  rfl

theorem allocateData_some (represents : allocator.Represents map) (served : ¬NoData size map)
    (memory : ByteMemory) :
    ∃ next, allocateData memory size allocator = .ok (.ok (dataObject memory size map), next) ∧
      next.Represents (dataMap size map) := by
  rcases allocatePool_represents represents .bootServicesData size 0 with ⟨next, returned, kept⟩
  have success := dataOutcome_success_iff.mpr served
  refine ⟨next, ?_, kept⟩
  rw [allocateData, returned, Exec.ok_bind]
  simp only [if_pos success]
  rfl

variable (laid : Laid map.regions)

include laid

theorem grantsType_data (size : UInt64) :
    GrantsType map.regions (Calloc.pagesFor size) .bootServicesData (dataOutcome size map) :=
  laid.allocate (bounded_anyPages _ _) .bootServicesData

theorem laid_dataMap (size : UInt64) : Laid (dataMap size map).regions :=
  (grantsType_data laid size).laid

theorem dataMap_keeps (size : UInt64) {byte : Nat}
    (taken : typeAt map.regions byte = some MemoryType.bootServicesData.toUInt32) :
    typeAt (dataMap size map).regions byte = some MemoryType.bootServicesData.toUInt32 := by
  exact ((grantsType_data laid size).types byte).trans (by rw [taken, ite_self])

theorem dataMap_none (none : NoData size map) (byte : Nat) :
    typeAt (dataMap size map).regions byte = typeAt map.regions byte := by
  have failed := mt dataOutcome_success_iff.mp (not_not.mpr none)
  exact ((grantsType_data laid size).types byte).trans (if_neg fun granted => failed granted.1)

theorem dataMap_takes (served : ¬NoData size map) (notEmpty : 0 < (Calloc.pagesFor size).toNat) :
    ∃ byte, typeAt map.regions byte = some MemoryType.conventionalMemory.toUInt32 ∧
      typeAt (dataMap size map).regions byte = some MemoryType.bootServicesData.toUInt32 := by
  have success := dataOutcome_success_iff.mpr served
  rcases grantsType_data laid size with ⟨_, wereFree, types⟩
  have granted : Granted (dataOutcome size map).1 (Calloc.pagesFor size)
      (dataOutcome size map).1.2.toNat := ⟨success, Nat.le_refl _, by omega⟩
  exact ⟨_, wereFree _ granted, (types _).trans (if_pos granted)⟩

theorem size_dataObject (served : ¬NoData size map) (memory : ByteMemory) :
    (dataObject memory size map).size = 4096 * (Calloc.pagesFor size).toNat := by
  have success := dataOutcome_success_iff.mpr served
  have wereFree := (grantsType_data laid size).wereFree
  rw [dataObject, objectAt, Buffer.size, ByteMemory.length_bytes]
  generalize dataOutcome size map = outcome at wereFree success ⊢
  apply Nat.min_eq_left
  by_contra beyond
  have bound := outcome.1.2.toNat_lt
  have free := wereFree (2 ^ 64) ⟨success, Nat.le_of_lt bound, by omega⟩
  rw [laid.typeAt_eq_none (Nat.le_refl _)] at free
  cases free

end Pool

/-! ## Copies of a device path -/

abbrev pathSize (nodes : List Node) : UInt64 := UInt64.ofNat (nodesSize nodes) + 4

section Copies

variable {memory : ByteMemory} {address : UInt64} {nodes : List Node}

theorem pathSize_toNat (fits : nodesSize nodes + 4 < 2 ^ 64) :
    (pathSize nodes).toNat = nodesSize nodes + 4 := by
  have sum : pathSize nodes = UInt64.ofNat (nodesSize nodes + 4) := by
    rw [UInt64.ofNat_add]
    rfl
  rw [sum, UInt64.toNat_ofNat', Nat.mod_eq_of_lt fits]

theorem PathAt.stored (path : PathAt memory address nodes) (fits : nodesSize nodes + 4 < 2 ^ 64)
    (object : Buffer) (distance : UInt64)
    (inside : distance.toNat + (nodesSize nodes + 4) ≤ object.size) :
    PathAt (object.overwrite distance.toNat
      (memory.bytes address (pathSize nodes).toNat)).memory (object.base + distance) nodes := by
  have bounded := object.bounded
  rw [← Buffer.size] at bounded
  apply path.copied
  intro index before
  have offset : (object.base + distance + UInt64.ofNat index - object.base).toNat =
      distance.toNat + index := by
    have number : (UInt64.ofNat index).toNat = index := by
      rw [UInt64.toNat_ofNat', Nat.mod_eq_of_lt (by omega)]
    rw [UInt64.add_assoc, UInt64.add_comm, UInt64.add_sub_cancel, UInt64.toNat_add, number,
      Nat.mod_eq_of_lt (by omega)]
  rw [Buffer.memory, Buffer.offset]
  change Buffer.byte _ (object.base + distance + UInt64.ofNat index - object.base).toNat = _
  rw [offset, Buffer.byte_overwrite_of_inside _ (by omega), Nat.add_sub_cancel_left]
  · rw [pathSize_toNat fits, ByteMemory.bytes, List.getD, List.getElem?_map,
      List.getElem?_range before]
    rfl
  · rw [ByteMemory.length_bytes, pathSize_toNat fits]
    omega
  · omega

end Copies

end HypervisorFirmware.Efi
