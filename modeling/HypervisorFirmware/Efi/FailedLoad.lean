import HypervisorFirmware.Efi.FileHandles
import HypervisorFirmware.Efi.LoadImage
import HypervisorFirmware.Foundation.Budget

/-! # Loads that fail

What a failed `load_image` leaves behind: the memory it has obtained is not given back,
and the boot service goes on with the null handle. -/

namespace HypervisorFirmware.Efi

open Alloc

/-! ## What is asked of a failed load -/

structure SameQueries (before after : HandleDatabase) : Prop where
  handleProtocol : ∀ slot guid, after.handleProtocol slot guid = before.handleProtocol slot guid
  locateProtocol : ∀ guid, after.locateProtocol guid = before.locateProtocol guid
  locateHandle : ∀ guid bufferSize buffer,
    after.locateHandle guid bufferSize buffer = before.locateHandle guid bufferSize buffer
  locateHandleBuffer : ∀ guid pool,
    after.locateHandleBuffer guid pool = before.locateHandleBuffer guid pool

def SameTypes (before after : Allocator) : Prop :=
  before.Reports fun regions => after.Reports fun regions' =>
    ∀ byte, typeAt regions' byte = typeAt regions byte

section

variable (request : ImageRequest) (state : ImageState)

def LoadFails (status : Status) (handle : Handle) (state' : ImageState) : Prop :=
  SettlesTo (fun fuel => loadImage fuel request state) (.ok ((status, handle), state')) ∧
    status ≠ .success

def LeavesNothing : Prop :=
  ∀ status handle state', LoadFails request state status handle state' →
    SameTypes state.allocator state'.allocator ∧ SameQueries state.db state'.db

/-- The boot service returns the error of a failed load and leaves the variable for the
handle alone. -/
def ReportsError : Prop :=
  ∀ status handle state', LoadFails request state status handle state' →
    ∀ imageHandle, SettlesTo (fun fuel => bootLoadImage fuel request state imageHandle)
      (.ok ((status, imageHandle), state'))

def FailsCleanly : Prop :=
  LeavesNothing request state ∧ ReportsError request state

end

/-! ## When a load fails -/

section

variable (request : ImageRequest) (nodes : List Node) (db : HandleDatabase) (map : MemoryMap)

def InstallFails : Prop :=
  db.protocolHandleCount = maxHandleStruct ∧ ¬NoData (pathSize nodes) map

def EntersAt (imageSize entryPoint : UInt64) : Prop :=
  ∃ loaded, SettlesTo
    (fun fuel => peloaderLoadImage fuel (dataObject request.memory imageSize map) request.source)
    (.ok (entryPoint, loaded))

/-- The source is not accepted, or there is no memory for the image, or the loader gives
no entry point, or the image cannot be installed. -/
def SourceFails : Prop :=
  ∃ imageSize, peloaderGetImageInfo request.source = .ok imageSize ∧
    (imageSize = 0 ∨ NoData imageSize map ∨
      ∃ entryPoint, EntersAt request map imageSize entryPoint ∧
        (entryPoint = 0 ∨ InstallFails nodes db (dataMap imageSize map)))

def infoSize : UInt64 := sizeOfImageInfo + pathSize nodes

def FailsLate : Prop :=
  128 + (nodesSize nodes + 4) ≤ 2 ^ 64 - 4096 ∧ ¬NoData (infoSize nodes) map ∧
    SourceFails request nodes db (dataMap (infoSize nodes) map)

def Fails : Prop := NoData (infoSize nodes) map ∨ FailsLate request nodes db map

end

/-! ## Installation -/

structure HoldsPath (info : Buffer) (nodes : List Node) : Prop where
  path : PathAt info.memory (info.base + sizeOfImageInfo) nodes
  fits : nodesSize nodes + 4 ≤ 2 ^ 64 - 4096
  inside : info.Contains (info.base + sizeOfImageInfo) (nodesSize nodes + 4)

structure Refuses (db : HandleDatabase) (map : MemoryMap) (status : Status) (handle : Handle)
    (state : ImageState) : Prop where
  failed : status ≠ .success
  null : handle = none
  db : state.db = db
  keeps : ∃ map', state.allocator.Represents map' ∧ ∀ byte,
    typeAt map.regions byte = some MemoryType.bootServicesData.toUInt32 →
      typeAt map'.regions byte = some MemoryType.bootServicesData.toUInt32

section Installation

variable {db next : HandleDatabase} {guid : Guid} {interface : UInt64} {nodes : List Node}
  {map : MemoryMap} {allocator : Allocator} {memory : ByteMemory} {info : Buffer} {fuel : Nat}

theorem installProtocolInterface_full (full : db.protocolHandleCount = maxHandleStruct)
    (guid : Guid) (interface : UInt64) :
    installProtocolInterface db none guid interface = .ok ((.outOfResources, none), db) := by
  have noRoom : ¬db.protocolHandleCount < maxHandleStruct := by omega
  rw [installProtocolInterface, HandleDatabase.installProtocol, HandleDatabase.currentHandle,
    HandleDatabase.getHandle]
  simp only [HandleDatabase.getNewHandle_full noRoom]
  rfl

theorem installProtocolInterface_of_step {handle : Handle} {response : InstallResponse}
    (stepped : db.step (.installProtocol handle guid interface) = .ok (response, next)) :
    installProtocolInterface db handle guid interface =
      .ok ((response.status, if response.status = .success then response.handle else handle),
        next) := by
  rw [HandleDatabase.step] at stepped
  rw [installProtocolInterface]
  cases installed : db.installProtocol handle guid interface with
  | error fault => simp [installed] at stepped
  | ok result =>
    simp only [installed, Exec.ok_bind, Exec.pure_eq_ok, Except.ok.injEq, Prod.mk.injEq] at stepped
    rcases stepped with ⟨rfl, rfl⟩
    simp only [Exec.ok_bind]
    split_ifs <;> rfl

theorem installProtocolInterface_new (sound : db.Sound)
    (room : db.protocolHandleCount < maxHandleStruct) (guid : Guid) (interface : UInt64) :
    ∃ slot next, installProtocolInterface db none guid interface =
        .ok ((.success, some slot), next) ∧
      next.Sound ∧ db.Adds (.installProtocol none guid interface) slot next := by
  rcases sound.installProtocol_new guid interface with
    ⟨response, next, stepped, status, nextSound, outcome⟩
  rw [← sound.length_handles] at room
  have success : response.status = .success := status.trans (if_pos room)
  rcases outcome with ⟨_, failed⟩ | adds
  · exact absurd success failed
  · exact ⟨_, next, installProtocolInterface_of_step stepped, nextSound, adds⟩

theorem installProtocolInterface_keeps (sound : db.Sound) (guid : Guid) (interface : UInt64) :
    ∃ status handle next, installProtocolInterface db none guid interface =
        .ok ((status, handle), next) ∧
      next.Sound ∧ ∀ slot ∈ db.handles,
        slot ∈ next.handles ∧ next.protocols slot = db.protocols slot := by
  rcases sound.installProtocol_new guid interface with
    ⟨response, next, stepped, _, nextSound, outcome⟩
  refine ⟨_, _, next, installProtocolInterface_of_step stepped, nextSound, ?_⟩
  intro slot member
  rcases outcome with ⟨_, _⟩ | adds
  · exact ⟨member, rfl⟩
  · have other := (adds.new rfl).1
    exact ⟨(adds.mem_handles slot).mpr (.inr member),
      adds.others slot fun same => other (same ▸ member)⟩

variable {devicePath : UInt64}

theorem dupDevicePath_none (represents : allocator.Represents map)
    (none : NoData (pathSize nodes) map) (path : PathAt info.memory devicePath nodes)
    (enough : nodes.length < fuel) :
    dupDevicePath fuel memory info devicePath allocator = .error .undefined := by
  rcases allocateData_none represents none memory with ⟨status, next, _, returned, _⟩
  rw [dupDevicePath, path.size enough, Exec.ok_bind, returned]
  rfl

theorem dupDevicePath_some (represents : allocator.Represents map)
    (laid : Laid map.regions) (served : ¬NoData (pathSize nodes) map)
    (path : PathAt info.memory devicePath nodes) (fits : nodesSize nodes + 4 ≤ 2 ^ 64 - 4096)
    (inside : info.Contains devicePath (nodesSize nodes + 4)) (memory : ByteMemory) :
    ∃ copy next,
      (∀ fuel, nodes.length < fuel →
        dupDevicePath fuel memory info devicePath allocator = .ok (copy, next)) ∧
      next.Represents (dataMap (pathSize nodes) map) ∧ PathAt copy.memory copy.base nodes := by
  rcases allocateData_some represents served memory with ⟨next, returned, kept⟩
  have number : (pathSize nodes).toNat = nodesSize nodes + 4 := pathSize_toNat (by omega)
  have room : (pathSize nodes).toNat ≤ (dataObject memory (pathSize nodes) map).size := by
    rw [size_dataObject laid served]
    exact le_pagesFor (by omega)
  have copied := path.stored (by omega) (dataObject memory (pathSize nodes) map) 0
    (by rw [← number, UInt64.toNat_zero, Nat.zero_add]; exact room)
  rw [UInt64.add_zero, UInt64.toNat_zero] at copied
  refine ⟨_, next, fun fuel enough => ?_, kept, copied⟩
  rw [← number] at inside
  rw [dupDevicePath, path.size enough, Exec.ok_bind, returned, Exec.ok_bind]
  simp only [Buffer.load_inside inside, Exec.ok_bind, Buffer.write_base, ByteMemory.length_bytes,
    if_pos room]
  rfl

theorem installProtocolInterface_loadedImage (sound : db.Sound) {slot : HandleSlot}
    (member : slot ∈ db.handles) {first : UInt64}
    (carried : db.protocols slot = [⟨imageInfoGuid, first⟩]) (interface : UInt64) :
    ∃ handle next, installProtocolInterface db (some slot) loadedImageGuid interface =
      .ok ((.success, handle), next) := by
  rcases sound.installProtocol_existing member loadedImageGuid interface with
    ⟨response, next, stepped, expected, _⟩
  have different : imageInfoGuid ≠ loadedImageGuid := by decide
  have success : response.status = .success := by
    simp [expected, HandleDatabase.installStatus, InstallCall.handle, InstallCall.pairs,
      HandleDatabase.carriesAny, HandleDatabase.carried, carried, interfaceOf, different,
      maxProtocolStruct]
  rw [installProtocolInterface_of_step stepped, success]
  exact ⟨_, next, rfl⟩

theorem installImage_full (full : db.protocolHandleCount = maxHandleStruct)
    (represents : allocator.Represents map) (laid : Laid map.regions)
    (served : ¬NoData (pathSize nodes) map) (holds : HoldsPath info nodes)
    (memory : ByteMemory) :
    ∃ next,
      (∀ fuel, nodes.length < fuel → installImage fuel memory info ⟨allocator, db⟩ =
        .ok ((.outOfResources, none), ⟨next, db⟩)) ∧
      next.Represents (dataMap (pathSize nodes) map) := by
  rcases dupDevicePath_some represents laid served holds.path holds.fits holds.inside
      memory with ⟨copy, next, returned, kept, copied⟩
  refine ⟨next, fun fuel enough => ?_, kept⟩
  rw [installImage]
  simp only [installProtocolInterface_full full, returned fuel enough, copied.drop enough,
    Exec.ok_bind]
  rfl

theorem installImage_null (full : db.protocolHandleCount = maxHandleStruct)
    (represents : allocator.Represents map) (none : NoData (pathSize nodes) map)
    (holds : HoldsPath info nodes) (enough : nodes.length < fuel) :
    installImage fuel memory info ⟨allocator, db⟩ = .error .undefined := by
  rw [installImage]
  simp only [installProtocolInterface_full full, dupDevicePath_none represents none holds.path
    enough, Exec.ok_bind, Exec.error_bind]

theorem installImage_room (sound : db.Sound) (room : db.protocolHandleCount < maxHandleStruct)
    {status : Status} {handle : Handle} {state : ImageState}
    (returned : installImage fuel memory info ⟨allocator, db⟩ = .ok ((status, handle), state)) :
    status = .success := by
  rcases installProtocolInterface_new sound room imageInfoGuid info.base with
    ⟨slot, db', first, sound', adds⟩
  rw [installImage] at returned
  simp only [first, Exec.ok_bind] at returned
  cases copied : dupDevicePath fuel memory info (info.base + sizeOfImageInfo) allocator with
  | error fault => simp [copied] at returned
  | ok copy =>
    simp only [copied, Exec.ok_bind] at returned
    cases dropped : dropFilePathMediaDevicePath fuel copy.1.memory copy.1.base with
    | error fault => simp [dropped] at returned
    | ok cut =>
      simp only [dropped, Exec.ok_bind] at returned
      rcases installProtocolInterface_keeps sound' devicePathGuid copy.1.base with
        ⟨_, _, db'', second, sound'', kept⟩
      simp only [second, Exec.ok_bind] at returned
      rcases kept slot ((adds.mem_handles slot).mpr (.inl rfl)) with ⟨member, protocols⟩
      have carried : db''.protocols slot = [⟨imageInfoGuid, info.base⟩] :=
        protocols.trans adds.protocols
      rcases installProtocolInterface_loadedImage sound'' member carried
          (info.base + loadedImageOffset) with ⟨_, _, third⟩
      simp only [third, Exec.ok_bind, Exec.pure_eq_ok, Except.ok.injEq, Prod.mk.injEq] at returned
      exact returned.1.1.symm

end Installation

/-! ## The loader -/

section Loader

variable {request : ImageRequest} {nodes : List Node} {db : HandleDatabase} {map : MemoryMap}
  {allocator : Allocator} {info : Buffer}

variable {fuel : Nat} {result : UInt64 × Buffer} {status : Status}

theorem finishImage_mono {more : Nat} (enough : fuel ≤ more)
    {header : ImageOptionalHeader64} {dest : Buffer}
    (returned : finishImage fuel header dest = .ok result) :
    finishImage more header dest = .ok result := by
  rw [finishImage, relocateImage] at returned ⊢
  split_ifs at returned ⊢ with moved
  · exact returned
  · cases ran : Loop.run (relocateImageBody (dest.base - header.imageBase)
        (dest.base + header.basereloc.virtualAddress.toUInt64 + header.basereloc.size.toUInt64))
        fuel ⟨dest.base + header.basereloc.virtualAddress.toUInt64, dest⟩ with
    | error fault => simp [ran] at returned
    | ok relocated =>
      rw [ran] at returned
      rw [Loop.run_mono enough ran]
      exact returned

theorem peloaderLoadImage_settles {source dest : Buffer} {imageSize : UInt64}
    (accepted : peloaderGetImageInfo source = .ok imageSize) (nonzero : imageSize ≠ 0)
    (returned : peloaderLoadImage fuel dest source = .ok result) :
    SettlesTo (fun fuel => peloaderLoadImage fuel dest source) (.ok result) := by
  refine ⟨fuel, fun more enough => ?_⟩
  dsimp only
  rw [peloaderLoadImage_eq accepted nonzero] at returned ⊢
  split_ifs at returned ⊢ with inside
  exact finishImage_mono enough returned

theorem Refuses.of_dataMap {next : Allocator} (failed : status ≠ .success)
    (laid : Laid map.regions) {size : UInt64} (kept : next.Represents (dataMap size map)) :
    Refuses db map status none ⟨next, db⟩ where
  failed := failed
  null := rfl
  db := rfl
  keeps := ⟨_, kept, fun _ => dataMap_keeps laid size⟩

theorem Refuses.trans {handle : Handle} {state : ImageState} {size : UInt64}
    (refuses : Refuses db (dataMap size map) status handle state) (laid : Laid map.regions) :
    Refuses db map status handle state where
  failed := refuses.failed
  null := refuses.null
  db := refuses.db
  keeps := by
    rcases refuses.keeps with ⟨map', represents, keeps⟩
    exact ⟨map', represents, fun byte taken => keeps byte (dataMap_keeps laid size taken)⟩

theorem SourceFails.settles (fails : SourceFails request nodes db map)
    (represents : allocator.Represents map) (laid : Laid map.regions)
    (holds : HoldsPath info nodes) :
    ∃ status handle state,
      SettlesTo (fun fuel => loadSource fuel request info ⟨allocator, db⟩)
        (.ok ((status, handle), state)) ∧
      Refuses db map status handle state := by
  rcases fails with ⟨imageSize, accepted, how⟩
  by_cases zero : imageSize = 0
  · refine ⟨.securityViolation, none, ⟨allocator, db⟩, ⟨0, fun fuel _ => ?_⟩, ?_⟩
    · simp only [loadSource, accepted, Exec.ok_bind, if_pos zero, Exec.pure_eq_ok]
    · exact ⟨by decide, rfl, rfl, map, represents, fun _ taken => taken⟩
  by_cases noMemory : NoData imageSize map
  · rcases allocateData_none represents noMemory request.memory with ⟨_, next, _, returned, kept⟩
    refine ⟨.outOfResources, none, ⟨next, db⟩, ⟨0, fun fuel _ => ?_⟩,
      .of_dataMap (by decide) laid kept⟩
    simp only [loadSource, accepted, Exec.ok_bind, if_neg zero, returned, Exec.pure_eq_ok]
  rcases (how.resolve_left zero).resolve_left noMemory with
    ⟨entryPoint, ⟨loaded, enough, enters⟩, last⟩
  rcases allocateData_some represents noMemory request.memory with ⟨next, returned, kept⟩
  by_cases noEntry : entryPoint = 0
  · refine ⟨.securityViolation, none, ⟨next, db⟩, ⟨enough, fun fuel many => ?_⟩,
      .of_dataMap (by decide) laid kept⟩
    simp only [loadSource, accepted, Exec.ok_bind, if_neg zero, returned, enters fuel many,
      if_pos noEntry, Exec.pure_eq_ok]
  · rcases last.resolve_left noEntry with ⟨full, served⟩
    have laid' := laid_dataMap laid imageSize
    rcases installImage_full full kept laid' served holds request.memory with
      ⟨last, installed, lastKept⟩
    refine ⟨.outOfResources, none, ⟨last, db⟩,
      ⟨max enough (nodes.length + 1), fun fuel many => ?_⟩,
      (Refuses.of_dataMap (by decide) laid' lastKept).trans laid⟩
    have loads := enters fuel (by omega)
    simp only [loadSource, accepted, Exec.ok_bind, if_neg zero, returned, loads, if_neg noEntry,
      installed fuel (by omega)]

theorem loadSource_failed (sound : db.Sound) (represents : allocator.Represents map)
    (holds : HoldsPath info nodes) (enough : nodes.length < fuel) {handle : Handle}
    {state : ImageState}
    (returned : loadSource fuel request info ⟨allocator, db⟩ = .ok ((status, handle), state))
    (failed : status ≠ .success) : SourceFails request nodes db map := by
  cases accepted : peloaderGetImageInfo request.source with
  | error fault => simp [loadSource, accepted] at returned
  | ok imageSize =>
    refine ⟨imageSize, accepted, ?_⟩
    by_cases zero : imageSize = 0
    · exact .inl zero
    by_cases noMemory : NoData imageSize map
    · exact .inr (.inl noMemory)
    refine .inr (.inr ?_)
    rcases allocateData_some represents noMemory request.memory with ⟨next, pool, kept⟩
    simp only [loadSource, accepted, Exec.ok_bind, if_neg zero, pool] at returned
    cases loaded : peloaderLoadImage fuel (dataObject request.memory imageSize map)
        request.source with
    | error fault => simp [loaded] at returned
    | ok result =>
      refine ⟨result.1, ⟨result.2, peloaderLoadImage_settles accepted zero loaded⟩, ?_⟩
      simp only [loaded, Exec.ok_bind] at returned
      by_cases noEntry : result.1 = 0
      · exact .inl noEntry
      right
      rw [if_neg noEntry] at returned
      have full : db.protocolHandleCount = maxHandleStruct := by
        by_contra notFull
        have room : db.protocolHandleCount < maxHandleStruct :=
          Nat.lt_of_le_of_ne sound.fits notFull
        exact failed (installImage_room sound room returned)
      refine ⟨full, fun none => ?_⟩
      rw [installImage_null full kept none holds enough] at returned
      cases returned

end Loader

/-! ## Loads -/

section

variable {request : ImageRequest} {nodes : List Node} {state : ImageState} {map : MemoryMap}

theorem infoSize_toNat (fits : nodesSize nodes + 4 < 2 ^ 64) :
    (infoSize nodes).toNat = (128 + (nodesSize nodes + 4)) % 2 ^ 64 := by
  rw [infoSize, UInt64.toNat_add, pathSize_toNat fits]
  rfl

theorem info_written (path : PathAt request.memory request.devicePath nodes)
    (room : 128 + (nodesSize nodes + 4) ≤ 2 ^ 64 - 4096) (laid : Laid map.regions)
    (served : ¬NoData (infoSize nodes) map) :
    ∃ info, (dataObject request.memory (infoSize nodes) map).write
        ((dataObject request.memory (infoSize nodes) map).base + sizeOfImageInfo)
        (request.memory.bytes request.devicePath (pathSize nodes).toNat) = .ok info ∧
      HoldsPath info nodes := by
  have fits : nodesSize nodes + 4 < 2 ^ 64 := by omega
  have number := infoSize_toNat fits
  have inside : sizeOfImageInfo.toNat + (nodesSize nodes + 4) ≤
      (dataObject request.memory (infoSize nodes) map).size := by
    rw [Nat.mod_eq_of_lt (by omega)] at number
    rw [size_dataObject laid served]
    change 128 + _ ≤ _
    rw [← number]
    exact le_pagesFor (by omega)
  refine ⟨_, ?_, ⟨path.stored fits _ sizeOfImageInfo inside, by omega, ?_⟩⟩
  · rw [Buffer.write_base_add, ByteMemory.length_bytes, pathSize_toNat fits, if_pos (.inr inside)]
  · apply (Buffer.contains_base_add _ _ _).mpr
    rw [Buffer.size_overwrite]
    exact .inr inside

theorem info_outside (request : ImageRequest) (fits : nodesSize nodes + 4 < 2 ^ 64)
    (noRoom : ¬128 + (nodesSize nodes + 4) ≤ 2 ^ 64 - 4096) (laid : Laid map.regions)
    (served : ¬NoData (infoSize nodes) map) :
    (dataObject request.memory (infoSize nodes) map).write
        ((dataObject request.memory (infoSize nodes) map).base + sizeOfImageInfo)
        (request.memory.bytes request.devicePath (pathSize nodes).toNat) =
      .error .undefined := by
  have number := infoSize_toNat fits
  rw [Buffer.write_base_add, ByteMemory.length_bytes, pathSize_toNat fits,
    size_dataObject laid served, Calloc.pagesFor_toNat, number, if_neg]
  omega

variable {state' : ImageState} {status : Status}

theorem SameQueries.refl (db : HandleDatabase) : SameQueries db db where
  handleProtocol _ _ := rfl
  locateProtocol _ := rfl
  locateHandle _ _ _ := rfl
  locateHandleBuffer _ _ := rfl

theorem LoadFails.boot_undefined
    (loadFails : LoadFails request state status none state') (imageHandle : Option Handle) :
    SettlesTo (fun fuel => bootLoadImage fuel request state imageHandle) (.error .undefined) := by
  rcases loadFails.1 with ⟨enough, loaded⟩
  refine ⟨enough, fun fuel many => ?_⟩
  have load := loaded fuel many
  simp only [bootLoadImage, load, Exec.ok_bind, handleProtocol, Exec.error_bind]

theorem LoadFails.not_reportsError
    (loadFails : LoadFails request state status none state') : ¬ReportsError request state := by
  intro reports
  cases SettlesTo.unique (reports _ _ _ loadFails none) (loadFails.boot_undefined none)

section

variable (path : PathAt request.memory request.devicePath nodes)
  (represents : state.allocator.Represents map)

include path represents

theorem loadImage_none (noMemory : NoData (infoSize nodes) map) :
    ∃ status next, status ≠ .success ∧ next.Represents (dataMap (infoSize nodes) map) ∧
      ∀ fuel, nodes.length < fuel →
        loadImage fuel request state = .ok ((status, none), ⟨next, state.db⟩) := by
  rcases allocateData_none represents noMemory request.memory with
    ⟨status, next, failed, returned, kept⟩
  rw [infoSize] at returned
  refine ⟨status, next, failed, kept, fun fuel enough => ?_⟩
  simp only [loadImage, path.size enough, Exec.ok_bind, returned, Exec.pure_eq_ok]

variable (laid : Laid map.regions)

include laid

theorem loadImage_some (room : 128 + (nodesSize nodes + 4) ≤ 2 ^ 64 - 4096)
    (served : ¬NoData (infoSize nodes) map) :
    ∃ info next, HoldsPath info nodes ∧ next.Represents (dataMap (infoSize nodes) map) ∧
      ∀ fuel, nodes.length < fuel →
        loadImage fuel request state = loadSource fuel request info ⟨next, state.db⟩ := by
  rcases allocateData_some represents served request.memory with ⟨next, returned, kept⟩
  rcases info_written path room laid served with ⟨info, written, holds⟩
  rw [infoSize] at returned written
  refine ⟨info, next, holds, kept, fun fuel enough => ?_⟩
  simp only [loadImage, path.size enough, Exec.ok_bind, returned, written]

theorem LoadFails.of_none (noMemory : NoData (infoSize nodes) map) :
    ∃ status next, LoadFails request state status none ⟨next, state.db⟩ ∧
      SameTypes state.allocator next := by
  rcases loadImage_none path represents noMemory with ⟨status, next, failed, kept, returned⟩
  refine ⟨status, next, ⟨⟨nodes.length + 1, returned⟩, failed⟩, ?_⟩
  rw [SameTypes, represents.reports_iff, kept.reports_iff]
  exact dataMap_none laid noMemory

theorem FailsLate.loadFails (late : FailsLate request nodes state.db map) :
    ∃ status state', LoadFails request state status none state' ∧
      ¬SameTypes state.allocator state'.allocator := by
  rcases late with ⟨room, served, fails⟩
  rcases loadImage_some path represents laid room served with ⟨info, next, holds, kept, goesOn⟩
  have laid' := laid_dataMap laid (infoSize nodes)
  rcases fails.settles kept laid' holds with
    ⟨status, handle, state', ⟨enough, settles⟩, refuses⟩
  rcases refuses with ⟨failed, rfl, _, map', represents', keeps⟩
  refine ⟨status, state', ⟨⟨max enough (nodes.length + 1), fun fuel many => ?_⟩, failed⟩, ?_⟩
  · exact (goesOn fuel (by omega)).trans (settles fuel (by omega))
  · have pages : 0 < (Calloc.pagesFor (infoSize nodes)).toNat := by
      rw [Calloc.pagesFor_toNat, infoSize_toNat (by omega)]
      omega
    rcases dataMap_takes laid served pages with ⟨byte, free, taken⟩
    rw [SameTypes, represents.reports_iff, represents'.reports_iff]
    intro same
    have still := keeps byte taken
    rw [same byte, free] at still
    exact absurd still (by decide)

theorem Fails.loadFails (fails : Fails request nodes state.db map) :
    ∃ status state', LoadFails request state status none state' := by
  rcases fails with none | late
  · rcases LoadFails.of_none path represents laid none with ⟨status, next, loadFails, _⟩
    exact ⟨status, _, loadFails⟩
  · rcases late.loadFails path represents laid with ⟨status, state', loadFails, _⟩
    exact ⟨status, state', loadFails⟩

variable (fits : nodesSize nodes + 4 < 2 ^ 64)

include fits

theorem loadImage_outside (noRoom : ¬128 + (nodesSize nodes + 4) ≤ 2 ^ 64 - 4096)
    (served : ¬NoData (infoSize nodes) map) {fuel : Nat} (enough : nodes.length < fuel) :
    loadImage fuel request state = .error .undefined := by
  rcases allocateData_some represents served request.memory with ⟨next, returned, _⟩
  have outside := info_outside request fits noRoom laid served
  rw [infoSize] at returned outside
  simp only [loadImage, path.size enough, Exec.ok_bind, returned, outside, Exec.error_bind]

variable (sound : state.db.Sound)

include sound

theorem LoadFails.fails {handle : Handle}
    (loadFails : LoadFails request state status handle state') :
    Fails request nodes state.db map := by
  by_cases none : NoData (infoSize nodes) map
  · exact .inl none
  rcases loadFails with ⟨⟨budget, settled⟩, failed⟩
  have returned := settled (max budget (nodes.length + 1)) (by omega)
  have enough : nodes.length < max budget (nodes.length + 1) := by omega
  dsimp only at returned
  by_cases room : 128 + (nodesSize nodes + 4) ≤ 2 ^ 64 - 4096
  · rcases loadImage_some path represents laid room none with ⟨info, next, holds, kept, goesOn⟩
    rw [goesOn _ enough] at returned
    exact .inr ⟨room, none, loadSource_failed sound kept holds enough returned failed⟩
  · rw [loadImage_outside path represents laid fits room none enough] at returned
    cases returned

theorem leavesNothing_iff :
    LeavesNothing request state ↔ ¬FailsLate request nodes state.db map := by
  constructor
  · intro leaves late
    rcases late.loadFails path represents laid with ⟨status, state', loadFails, changed⟩
    exact changed (leaves _ _ _ loadFails).1
  · intro notLate status handle state' loadFails
    have noMemory := (loadFails.fails path represents laid fits sound).resolve_right notLate
    rcases LoadFails.of_none path represents laid noMemory with ⟨_, next, other, sameTypes⟩
    cases SettlesTo.unique other.1 loadFails.1
    exact ⟨sameTypes, .refl _⟩

theorem reportsError_iff : ReportsError request state ↔ ¬Fails request nodes state.db map := by
  constructor
  · intro reports fails
    rcases fails.loadFails path represents laid with ⟨status, state', loadFails⟩
    exact loadFails.not_reportsError reports
  · intro notFails status handle state' loadFails
    exact absurd (loadFails.fails path represents laid fits sound) notFails

end

/-- Loads are clean in failure exactly if there is no failure: even without memory for the
`ImageInfo`, when nothing is left behind, the boot service uses the null handle. -/
theorem failsCleanly_iff_not_fails (path : PathAt request.memory request.devicePath nodes)
    (fits : nodesSize nodes + 4 < 2 ^ 64) (represents : state.allocator.Represents map)
    (laid : Laid map.regions) (sound : state.db.Sound) :
    (FailsCleanly request state ↔ ¬Fails request nodes state.db map) ∧
      (LeavesNothing request state ↔ ¬FailsLate request nodes state.db map) := by
  have leaves := leavesNothing_iff path represents laid fits sound
  have reports := reportsError_iff path represents laid fits sound
  refine ⟨?_, leaves⟩
  rw [FailsCleanly, leaves, reports]
  constructor
  · exact And.right
  · intro notFails
    exact ⟨fun late => notFails (.inr late), notFails⟩

end

/-! ## A source without an image -/

def emptyRequest : ImageRequest where
  memory := .ofWords [0, 0x0004ff7f]
  devicePath := 8
  source := ⟨0x4000, [], by decide⟩

theorem emptyRequest_path : PathAt emptyRequest.memory emptyRequest.devicePath [] :=
  .finish (by decide) (by decide)

theorem failsCleanly_iff_not_fails_empty_source :
    ∃ responses allocator,
      Alloc.run Allocator.new FileLayout.sixteenPages = .ok (responses, allocator) ∧
      (FailsCleanly emptyRequest ⟨allocator, .new⟩ ↔
        ¬Fails emptyRequest [] .new (MemoryMap.empty.run FileLayout.sixteenPages)) ∧
      (LeavesNothing emptyRequest ⟨allocator, .new⟩ ↔
        ¬FailsLate emptyRequest [] .new (MemoryMap.empty.run FileLayout.sixteenPages)) := by
  rcases run_represents Allocator.new_represents FileLayout.sixteenPages with
    ⟨allocator, ran, represents⟩
  exact ⟨_, allocator, ran, failsCleanly_iff_not_fails emptyRequest_path (by decide) represents
    sixteenPages_inOrder.laid_run HandleDatabase.new_sound⟩

/-- The empty source is refused. The page for its `ImageInfo` stays taken, and the boot
service reads through the null handle. -/
theorem not_failsCleanly_empty_source :
    ∃ responses allocator state',
      Alloc.run Allocator.new FileLayout.sixteenPages = .ok (responses, allocator) ∧
      LoadFails emptyRequest ⟨allocator, .new⟩ .securityViolation none state' ∧
      (state'.allocator.Reports fun regions =>
        typeAt regions 0x200000 = some MemoryType.bootServicesData.toUInt32) ∧
      (∀ imageHandle, SettlesTo
        (fun fuel => bootLoadImage fuel emptyRequest ⟨allocator, .new⟩ imageHandle)
        (.error .undefined)) ∧
      ¬FailsCleanly emptyRequest ⟨allocator, .new⟩ := by
  rcases run_represents Allocator.new_represents FileLayout.sixteenPages with
    ⟨allocator, ran, represents⟩
  have served : ¬NoData (infoSize []) (MemoryMap.empty.run FileLayout.sixteenPages) :=
    (Calloc.allocate_success_iff _ .bootServicesData _).mp (by decide)
  rcases @loadImage_some emptyRequest [] ⟨allocator, .new⟩ _ emptyRequest_path represents
      sixteenPages_inOrder.laid_run (by decide) served with ⟨info, next, _, kept, goesOn⟩
  have refused : peloaderGetImageInfo emptyRequest.source = .ok 0 := by decide
  have loadFails : LoadFails emptyRequest ⟨allocator, .new⟩ .securityViolation none
      ⟨next, .new⟩ := by
    refine ⟨⟨1, fun fuel enough => (goesOn fuel enough).trans ?_⟩, by decide⟩
    rw [loadSource, refused]
    rfl
  refine ⟨_, allocator, ⟨next, .new⟩, ran, loadFails, (kept.reports_iff _).mpr (by decide),
    loadFails.boot_undefined, ?_⟩
  exact fun clean => loadFails.not_reportsError clean.2

end HypervisorFirmware.Efi
