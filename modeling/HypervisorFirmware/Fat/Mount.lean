import HypervisorFirmware.Fat.Open

/-! # Mounting a volume

`Filesystem::new` and `Filesystem::init`: the boot sector is read and the fields of
the volume are worked out from it. Additions and multiplications wrap. A
subtraction is a parameter: it wraps in the firmware as it is built, and stops in a
build with overflow checks. -/

namespace HypervisorFirmware.Fat

/-! ## The boot sector -/

structure Header where
  bytesPerSector : UInt16
  sectorsPerCluster : UInt8
  reservedSectors : UInt16
  fatCount : UInt8
  rootDirCount : UInt16
  legacySectors : UInt16
  legacySectorsPerFat : UInt16
  sectors : UInt32
  deriving DecidableEq, Repr

structure Fat32Header extends Header where
  sectorsPerFat : UInt32
  rootCluster : UInt32
  deriving DecidableEq, Repr

def Fat32Header.ofSector (data : Sector) : Fat32Header where
  bytesPerSector := (Sector.bytes data).readUInt16 11
  sectorsPerCluster := Sector.bytes data 13
  reservedSectors := (Sector.bytes data).readUInt16 14
  fatCount := Sector.bytes data 16
  rootDirCount := (Sector.bytes data).readUInt16 17
  legacySectors := (Sector.bytes data).readUInt16 19
  legacySectorsPerFat := (Sector.bytes data).readUInt16 22
  sectors := (Sector.bytes data).readUInt32 32
  sectorsPerFat := (Sector.bytes data).readUInt32 36
  rootCluster := (Sector.bytes data).readUInt32 44

def put (offset count value : Nat) (bytes : Nat → UInt8) (position : Nat) : UInt8 :=
  if offset ≤ position ∧ position < offset + count then
    UInt8.ofNat (value / 256 ^ (position - offset))
  else bytes position

theorem put_inside {offset count value : Nat} {bytes : Nat → UInt8} {index : Nat}
    (inside : index < count) :
    put offset count value bytes (offset + index) = UInt8.ofNat (value / 256 ^ index) := by
  rw [put, if_pos (by omega), Nat.add_sub_cancel_left]

theorem put_outside {offset count value : Nat} {bytes : Nat → UInt8} {position : Nat}
    (outside : ¬(offset ≤ position ∧ position < offset + count)) :
    put offset count value bytes position = bytes position := if_neg outside

namespace Fat32Header

def layout (h : Fat32Header) : Nat → UInt8 :=
  put 11 2 h.bytesPerSector.toNat <| put 13 1 h.sectorsPerCluster.toNat <|
  put 14 2 h.reservedSectors.toNat <| put 16 1 h.fatCount.toNat <|
  put 17 2 h.rootDirCount.toNat <| put 19 2 h.legacySectors.toNat <|
  put 22 2 h.legacySectorsPerFat.toNat <| put 32 4 h.sectors.toNat <|
  put 36 4 h.sectorsPerFat.toNat <| put 44 4 h.rootCluster.toNat fun _ => 0

def toSector (h : Fat32Header) : Sector :=
  Vector.ofFn fun position : Fin 512 => h.layout position

variable {address : UInt64}

variable (h : Fat32Header)

theorem bytes_toSector (inside : address.toNat < 512) :
    Sector.bytes h.toSector address = h.layout address.toNat := by
  simp [Sector.bytes, toSector, inside, List.getD_eq_getElem?_getD]

theorem readNat_toSector {count value : Nat} (inside : address.toNat + count ≤ 512)
    (stored : ∀ index < count,
      h.layout (address.toNat + index) = UInt8.ofNat (value / 256 ^ index)) :
    (Sector.bytes h.toSector).readNat address count = value % 256 ^ count := by
  apply ByteMemory.readNat_of_bytes
  intro index inNumber
  have place : (address + UInt64.ofNat index).toNat = address.toNat + index := by
    rw [UInt64.toNat_add, UInt64.toNat_ofNat']
    omega
  rw [bytes_toSector h (by omega), place, stored index inNumber]

theorem readUInt16_toSector {value : UInt16} (inside : address.toNat + 2 ≤ 512)
    (stored : ∀ index < 2,
      h.layout (address.toNat + index) = UInt8.ofNat (value.toNat / 256 ^ index)) :
    (Sector.bytes h.toSector).readUInt16 address = value := by
  have small : value.toNat < 256 ^ 2 := value.toNat_lt
  rw [ByteMemory.readUInt16, readNat_toSector h inside stored, Nat.mod_eq_of_lt small,
    UInt16.ofNat_toNat]

theorem readUInt32_toSector {value : UInt32} (inside : address.toNat + 4 ≤ 512)
    (stored : ∀ index < 4,
      h.layout (address.toNat + index) = UInt8.ofNat (value.toNat / 256 ^ index)) :
    (Sector.bytes h.toSector).readUInt32 address = value := by
  have small : value.toNat < 256 ^ 4 := value.toNat_lt
  rw [ByteMemory.readUInt32, readNat_toSector h inside stored, Nat.mod_eq_of_lt small,
    UInt32.ofNat_toNat]

theorem ofSector_toSector : ofSector h.toSector = h := by
  have same : ∀ {first second : Header} {size size' cluster cluster' : UInt32},
      first = second → size = size' → cluster = cluster' →
        (⟨first, size, cluster⟩ : Fat32Header) = ⟨second, size', cluster'⟩ := by
    rintro _ _ _ _ _ _ rfl rfl rfl
    rfl
  have byte {address : UInt64} (inside : address.toNat < 512) {value : UInt8}
      (stored : h.layout address.toNat = value) : Sector.bytes h.toSector address = value :=
    (bytes_toSector h inside).trans stored
  -- Each field is read where it has been put.
  refine same (Header.mk.injEq .. ▸ ⟨readUInt16_toSector h (by decide) ?_, byte (by decide) ?_,
    readUInt16_toSector h (by decide) ?_, byte (by decide) ?_,
    readUInt16_toSector h (by decide) ?_, readUInt16_toSector h (by decide) ?_,
    readUInt16_toSector h (by decide) ?_, readUInt32_toSector h (by decide) ?_⟩)
    (readUInt32_toSector h (by decide) ?_) (readUInt32_toSector h (by decide) ?_)
  case refine_2 | refine_4 => simp [layout, put]
  all_goals
    intro index inside
    simp (disch := omega) only [layout, UInt64.reduceToNat, put_outside, put_inside]

end Fat32Header

/-! ## The fields of a volume -/

/-- All fields of the source's `Filesystem`. Later calls read those of `Volume`. -/
structure FilesystemFields extends Volume where
  partId : UInt32
  sectors : UInt32
  clusters : UInt32
  sectorsPerFat : UInt32
  fatCount : UInt32
  dataSectorCount : UInt32
  dataClusterCount : UInt32
  deriving DecidableEq, Repr

def FatType.ofClusters (clusters : UInt32) : FatType :=
  if clusters < 0xff5 then .fat12
  else if clusters < 0xfff5 then .fat16
  else .fat32

def divide (dividend divisor : UInt32) : Exec UInt32 :=
  if divisor = 0 then .error .panicked else .ok (dividend / divisor)

def wrappingSub (minuend subtrahend : UInt32) : Exec UInt32 := .ok (minuend - subtrahend)

def checkedSub (minuend subtrahend : UInt32) : Exec UInt32 :=
  if subtrahend ≤ minuend then .ok (minuend - subtrahend) else .error .panicked

namespace FilesystemFields

def new (start last : UInt64) (partId : UInt32) : FilesystemFields where
  start := start
  last := last
  partId := partId
  bytesPerSector := 0
  sectors := 0
  fatType := .unknown
  clusters := 0
  sectorsPerFat := 0
  sectorsPerCluster := 0
  fatCount := 0
  rootDirSectors := 0
  firstFatSector := 0
  firstDataSector := 0
  dataSectorCount := 0
  dataClusterCount := 0
  rootCluster := 0

section

variable (subtract : UInt32 → UInt32 → Exec UInt32) (fs : FilesystemFields) (h : Fat32Header)

def initRootDirSectors (fatType : FatType) : Exec UInt32 :=
  if fatType = .fat12 ∨ fatType = .fat16 then do
    -- The product is a `u16`.
    let last ← subtract ((h.rootDirCount * 32).toUInt32 + h.bytesPerSector.toUInt32) 1
    divide last h.bytesPerSector.toUInt32
  else .ok fs.rootDirSectors

def initFrom : Exec FilesystemFields := do
  let bytesPerSector := h.bytesPerSector.toUInt32
  let fatCount := h.fatCount.toUInt32
  let sectorsPerCluster := h.sectorsPerCluster.toUInt32
  let sectors := if h.legacySectors = 0 then h.sectors else h.legacySectors.toUInt32
  let clusters ← divide sectors sectorsPerCluster
  let fatType := FatType.ofClusters clusters
  let sectorsPerFat :=
    if fatType = .fat32 then h.sectorsPerFat else h.legacySectorsPerFat.toUInt32
  let rootCluster := if fatType = .fat32 then h.rootCluster else fs.rootCluster
  let rootDirSectors ← fs.initRootDirSectors subtract h fatType
  let firstFatSector := h.reservedSectors.toUInt32
  let firstDataSector := firstFatSector + fatCount * sectorsPerFat + rootDirSectors
  let dataSectorCount ← subtract sectors firstDataSector
  let dataClusterCount ← divide dataSectorCount bytesPerSector
  return { fs with
    bytesPerSector, fatCount, sectorsPerCluster, sectors, clusters, fatType, sectorsPerFat,
    rootCluster, rootDirSectors, firstFatSector, firstDataSector, dataSectorCount,
    dataClusterCount }

end

variable {State : Type}

def initWith (subtract : UInt32 → UInt32 → Exec UInt32) (fs : FilesystemFields)
    (device : SectorDevice State) (state : State) :
    Exec (Except Error Unit × FilesystemFields × State) :=
  match fs.toFilesystem.read device 0 state with
  | (none, state) => .ok (.error .blockError, fs, state)
  | (some data, state) => do
      let fs ← fs.initFrom subtract (Fat32Header.ofSector data)
      return (.ok (), fs, state)

def init (fs : FilesystemFields) (device : SectorDevice State) (state : State) :
    Exec (Except Error Unit × FilesystemFields × State) :=
  fs.initWith wrappingSub device state

end FilesystemFields

/-! ## What the fields become -/

namespace Fat32Header

variable (h : Fat32Header)

def total : UInt32 :=
  if h.legacySectors = 0 then h.sectors else h.legacySectors.toUInt32

def fatType : FatType :=
  FatType.ofClusters (h.total / h.sectorsPerCluster.toUInt32)

def tableSectors : UInt32 :=
  if h.fatType = .fat32 then h.sectorsPerFat else h.legacySectorsPerFat.toUInt32

def rootSectors : UInt32 :=
  if h.fatType = .fat32 then 0
  else ((h.rootDirCount * 32).toUInt32 + h.bytesPerSector.toUInt32 - 1) / h.bytesPerSector.toUInt32

def firstData : UInt32 :=
  h.reservedSectors.toUInt32 + h.fatCount.toUInt32 * h.tableSectors + h.rootSectors

end Fat32Header

namespace FilesystemFields

def mounted (start last : UInt64) (partId : UInt32) (h : Fat32Header) : FilesystemFields where
  start := start
  last := last
  partId := partId
  bytesPerSector := h.bytesPerSector.toUInt32
  sectors := h.total
  fatType := h.fatType
  clusters := h.total / h.sectorsPerCluster.toUInt32
  sectorsPerFat := h.tableSectors
  sectorsPerCluster := h.sectorsPerCluster.toUInt32
  fatCount := h.fatCount.toUInt32
  rootDirSectors := h.rootSectors
  firstFatSector := h.reservedSectors.toUInt32
  firstDataSector := h.firstData
  dataSectorCount := h.total - h.firstData
  dataClusterCount := (h.total - h.firstData) / h.bytesPerSector.toUInt32
  rootCluster := if h.fatType = .fat32 then h.rootCluster else 0

theorem ofClusters_not_fat32 (clusters : UInt32) :
    (FatType.ofClusters clusters = .fat12 ∨ FatType.ofClusters clusters = .fat16) ↔
      ¬FatType.ofClusters clusters = .fat32 := by
  unfold FatType.ofClusters
  split_ifs <;> decide

variable {h : Fat32Header} {subtract : UInt32 → UInt32 → Exec UInt32}

theorem initFrom_of_sizes
    (start last : UInt64) (partId : UInt32) (clusterSize : h.sectorsPerCluster.toUInt32 ≠ 0)
    (sectorSize : h.bytesPerSector.toUInt32 ≠ 0)
    (rounding : subtract ((h.rootDirCount * 32).toUInt32 + h.bytesPerSector.toUInt32) 1 =
      .ok ((h.rootDirCount * 32).toUInt32 + h.bytesPerSector.toUInt32 - 1)) :
    (new start last partId).initFrom subtract h = do
      let count ← subtract h.total h.firstData
      return { mounted start last partId h with
        dataSectorCount := count, dataClusterCount := count / h.bytesPerSector.toUInt32 } := by
  have clusters : divide h.total h.sectorsPerCluster.toUInt32 =
      .ok (h.total / h.sectorsPerCluster.toUInt32) := if_neg clusterSize
  have whole (dividend : UInt32) : divide dividend h.bytesPerSector.toUInt32 =
      .ok (dividend / h.bytesPerSector.toUInt32) := if_neg sectorSize
  have root : (new start last partId).initRootDirSectors subtract h h.fatType =
      .ok h.rootSectors := by
    rw [initRootDirSectors, Fat32Header.rootSectors, rounding, Exec.ok_bind, whole,
      Fat32Header.fatType]
    by_cases wide : FatType.ofClusters (h.total / h.sectorsPerCluster.toUInt32) = .fat32
    · rw [if_neg (by rwa [ofClusters_not_fat32, not_not]), if_pos wide]
      rfl
    · rw [if_pos ((ofClusters_not_fat32 _).mpr wide), if_neg wide]
  simp only [initFrom]
  rw [← Fat32Header.total, clusters, Exec.ok_bind, ← Fat32Header.fatType,
    ← Fat32Header.tableSectors, root, Exec.ok_bind, ← Fat32Header.firstData]
  simp only [whole, Exec.ok_bind]
  rfl

theorem panics_of_bind {α β : Type} {first : Exec α} {next : α → Exec β}
    (stops : ∀ fault, first = .error fault → fault = .panicked)
    (panics : ∀ value, next value = .error .panicked) :
    (first >>= next) = .error .panicked := by
  cases outcome : first with
  | error fault =>
    rw [stops fault outcome]
    rfl
  | ok value => exact panics value

theorem divide_fault {dividend divisor : UInt32} {fault : Fault}
    (faulted : divide dividend divisor = .error fault) : fault = .panicked := by
  unfold divide at faulted
  split_ifs at faulted
  cases faulted
  rfl

theorem initRootDirSectors_fault {fs : FilesystemFields} {fatType : FatType} {fault : Fault}
    (stops : ∀ minuend subtrahend fault, subtract minuend subtrahend = .error fault →
      fault = .panicked)
    (faulted : fs.initRootDirSectors subtract h fatType = .error fault) : fault = .panicked := by
  unfold initRootDirSectors at faulted
  split_ifs at faulted
  cases outcome : subtract ((h.rootDirCount * 32).toUInt32 + h.bytesPerSector.toUInt32) 1 with
  | error other =>
    rw [outcome, Exec.error_bind] at faulted
    cases faulted
    exact stops _ _ _ outcome
  | ok last =>
    rw [outcome, Exec.ok_bind] at faulted
    exact divide_fault faulted

theorem initFrom_panics (fs : FilesystemFields)
    (stops : ∀ minuend subtrahend fault, subtract minuend subtrahend = .error fault →
      fault = .panicked)
    (zero : h.sectorsPerCluster.toUInt32 = 0 ∨ h.bytesPerSector.toUInt32 = 0) :
    fs.initFrom subtract h = .error .panicked := by
  simp only [initFrom]
  rcases zero with clusterSize | sectorSize
  · rw [clusterSize]
    rfl
  · apply panics_of_bind (fun _ => divide_fault)
    intro clusters
    apply panics_of_bind
    · intro fault
      exact initRootDirSectors_fault stops
    intro root
    apply panics_of_bind (stops _ _)
    intro count
    rw [sectorSize]
    rfl

theorem checkedSub_stops (minuend subtrahend : UInt32) (fault : Fault)
    (faulted : checkedSub minuend subtrahend = .error fault) : fault = .panicked := by
  unfold checkedSub at faulted
  split_ifs at faulted
  cases faulted
  rfl

end FilesystemFields

/-! ## The same as numbers -/

namespace Fat32Header

def totalSectors (h : Fat32Header) : Nat :=
  if h.legacySectors = 0 then h.sectors.toNat else h.legacySectors.toNat

/-- The sectors in front of the data, by the fields that `init` takes for the number
of clusters. -/
def sectorsBeforeData (h : Fat32Header) : Nat :=
  if h.totalSectors / h.sectorsPerCluster.toNat < 65525 then
    h.reservedSectors.toNat + h.fatCount.toNat * h.legacySectorsPerFat.toNat +
      (32 * h.rootDirCount.toNat % 2 ^ 16 + h.bytesPerSector.toNat - 1) / h.bytesPerSector.toNat
  else h.reservedSectors.toNat + h.fatCount.toNat * h.sectorsPerFat.toNat

theorem total_toNat (h : Fat32Header) : h.total.toNat = h.totalSectors := by
  rw [total, totalSectors, apply_ite UInt32.toNat, UInt16.toNat_toUInt32]

theorem ofClusters_eq (clusters : UInt32) :
    FatType.ofClusters clusters =
      if clusters.toNat < 4085 then .fat12 else if clusters.toNat < 65525 then .fat16
      else .fat32 := by
  simp only [FatType.ofClusters, UInt32.lt_iff_toNat_lt, UInt32.reduceToNat]

theorem ofClusters_eq_fat32 (clusters : UInt32) :
    FatType.ofClusters clusters = .fat32 ↔ ¬clusters.toNat < 65525 := by
  rw [ofClusters_eq]
  split_ifs with small medium
  · simp only [false_iff]
    omega
  · simp only [false_iff]
    omega
  · simp only [true_iff]
    omega

theorem fatType_eq_fat32 (h : Fat32Header) :
    h.fatType = .fat32 ↔ ¬h.totalSectors / h.sectorsPerCluster.toNat < 65525 := by
  rw [fatType, ofClusters_eq_fat32, UInt32.toNat_div, total_toNat, UInt8.toNat_toUInt32]

theorem firstData_toNat {h : Fat32Header} (sectorSize : h.bytesPerSector.toNat ≠ 0) :
    h.firstData.toNat = h.sectorsBeforeData % 2 ^ 32 := by
  have reserved := h.reservedSectors.toNat_lt
  rw [firstData, sectorsBeforeData, tableSectors, rootSectors]
  by_cases wide : h.fatType = .fat32
  · rw [if_pos wide, if_pos wide, if_neg ((fatType_eq_fat32 h).mp wide)]
    simp only [UInt32.toNat_add, UInt32.toNat_mul, UInt8.toNat_toUInt32, UInt16.toNat_toUInt32,
      UInt32.toNat_zero]
    omega
  · have narrow : h.totalSectors / h.sectorsPerCluster.toNat < 65525 := by
      rw [fatType_eq_fat32, not_not] at wide
      exact wide
    have size := h.bytesPerSector.toNat_lt
    have rounded : ((h.rootDirCount * 32).toUInt32 + h.bytesPerSector.toUInt32 - 1).toNat =
        32 * h.rootDirCount.toNat % 2 ^ 16 + h.bytesPerSector.toNat - 1 := by
      rw [UInt32.toNat_sub, UInt32.toNat_add, UInt16.toNat_toUInt32, UInt16.toNat_toUInt32,
        UInt16.toNat_mul]
      simp only [UInt16.reduceToNat, UInt32.reduceToNat]
      omega
    rw [if_neg wide, if_neg wide, if_pos narrow]
    simp only [UInt32.toNat_add, UInt32.toNat_mul, UInt8.toNat_toUInt32, UInt16.toNat_toUInt32,
      UInt32.toNat_div, rounded]
    omega

/-- The sector size and the cluster size are not zero, and the data begins within the
volume. -/
structure Mountable (h : Fat32Header) : Prop where
  clusterSize : h.sectorsPerCluster.toNat ≠ 0
  sectorSize : h.bytesPerSector.toNat ≠ 0
  dataInside : h.sectorsBeforeData % 2 ^ 32 ≤ h.totalSectors

end Fat32Header

/-! ## Safety -/

namespace FilesystemFields

variable {State : Type}

/-- The call returns, no subtraction wraps, and a volume that is mounted has sizes to
divide by and data within it. -/
def MountsSafely (fs : FilesystemFields) (device : SectorDevice State) (state : State) : Prop :=
  ∃ result after next, fs.initWith checkedSub device state = .ok (result, after, next) ∧
    fs.init device state = .ok (result, after, next) ∧
    (result = .ok () → after.bytesPerSector ≠ 0 ∧ after.sectorsPerCluster ≠ 0 ∧
      after.firstDataSector ≤ after.sectors)

theorem toUInt32_ne_zero {size : UInt16} : size.toUInt32 ≠ 0 ↔ size.toNat ≠ 0 := by
  rw [Ne, ← UInt32.toNat_inj, UInt16.toNat_toUInt32]
  rfl

theorem toUInt32_ne_zero8 {size : UInt8} : size.toUInt32 ≠ 0 ↔ size.toNat ≠ 0 := by
  rw [Ne, ← UInt32.toNat_inj, UInt8.toNat_toUInt32]
  rfl

variable {h : Fat32Header}

theorem rounding_le (sectorSize : h.bytesPerSector.toNat ≠ 0) :
    1 ≤ (h.rootDirCount * 32).toUInt32 + h.bytesPerSector.toUInt32 := by
  have root := (h.rootDirCount * 32).toNat_lt
  have size := h.bytesPerSector.toNat_lt
  rw [UInt32.le_iff_toNat_le, UInt32.toNat_add, UInt16.toNat_toUInt32, UInt16.toNat_toUInt32]
  simp only [UInt32.reduceToNat]
  omega

theorem initFrom_wrapping (start last : UInt64) (partId : UInt32)
    (clusterSize : h.sectorsPerCluster.toNat ≠ 0) (sectorSize : h.bytesPerSector.toNat ≠ 0) :
    (new start last partId).initFrom wrappingSub h = .ok (mounted start last partId h) := by
  rw [initFrom_of_sizes start last partId (toUInt32_ne_zero8.mpr clusterSize)
    (toUInt32_ne_zero.mpr sectorSize) rfl]
  rfl

theorem initFrom_checked (start last : UInt64) (partId : UInt32)
    (clusterSize : h.sectorsPerCluster.toNat ≠ 0) (sectorSize : h.bytesPerSector.toNat ≠ 0) :
    (new start last partId).initFrom checkedSub h =
      if h.firstData ≤ h.total then .ok (mounted start last partId h) else .error .panicked := by
  rw [initFrom_of_sizes start last partId (toUInt32_ne_zero8.mpr clusterSize)
    (toUInt32_ne_zero.mpr sectorSize) (if_pos (rounding_le sectorSize)), checkedSub]
  split_ifs <;> rfl

theorem firstData_le_total (sectorSize : h.bytesPerSector.toNat ≠ 0) :
    h.firstData ≤ h.total ↔ h.sectorsBeforeData % 2 ^ 32 ≤ h.totalSectors := by
  rw [UInt32.le_iff_toNat_le, Fat32Header.firstData_toNat sectorSize, Fat32Header.total_toNat]

theorem init_of_read {start last : UInt64} {partId : UInt32} {device : SectorDevice State}
    {state next : State} {data : Sector}
    (reading : (new start last partId).toFilesystem.read device 0 state = (some data, next))
    (clusterSize : (Fat32Header.ofSector data).sectorsPerCluster.toNat ≠ 0)
    (sectorSize : (Fat32Header.ofSector data).bytesPerSector.toNat ≠ 0) :
    (new start last partId).init device state =
      .ok (.ok (), mounted start last partId (.ofSector data), next) := by
  rw [init, initWith, reading]
  simp only
  rw [initFrom_wrapping start last partId clusterSize sectorSize]
  rfl

theorem init_toSector {start last : UInt64} (partId : UInt32)
    (inside : ¬start + 0 > last) (clusterSize : h.sectorsPerCluster.toNat ≠ 0)
    (sectorSize : h.bytesPerSector.toNat ≠ 0) :
    (new start last partId).init (.reliable fun _ => h.toSector) () =
      .ok (.ok (), mounted start last partId h, ()) := by
  have reading : (new start last partId).toFilesystem.read (.reliable fun _ => h.toSector) 0 () =
      (some h.toSector, ()) := if_neg inside
  rw [init_of_read reading, Fat32Header.ofSector_toSector]
  · rw [Fat32Header.ofSector_toSector]
    exact clusterSize
  · rw [Fat32Header.ofSector_toSector]
    exact sectorSize

theorem mountable_of_initFrom {start last : UInt64} {partId : UInt32} {after : FilesystemFields}
    (returned : (new start last partId).initFrom checkedSub h = .ok after) : h.Mountable := by
  have clusterSize : h.sectorsPerCluster.toUInt32 ≠ 0 := by
    intro zero
    rw [initFrom_panics _ checkedSub_stops (.inl zero)] at returned
    cases returned
  have sectorSize : h.bytesPerSector.toUInt32 ≠ 0 := by
    intro zero
    rw [initFrom_panics _ checkedSub_stops (.inr zero)] at returned
    cases returned
  rw [toUInt32_ne_zero8] at clusterSize
  rw [toUInt32_ne_zero] at sectorSize
  rw [initFrom_checked start last partId clusterSize sectorSize] at returned
  split_ifs at returned with inside
  exact ⟨clusterSize, sectorSize, (firstData_le_total sectorSize).mp inside⟩

/-- Mounting is safe exactly for the boot sectors that are mountable. When the sector
cannot be read the call reports that. -/
theorem mountsSafely_iff_mountable (start last : UInt64) (partId : UInt32)
    (device : SectorDevice State) (state : State) :
    (new start last partId).MountsSafely device state ↔
      ∀ data next, (new start last partId).toFilesystem.read device 0 state = (some data, next) →
        (Fat32Header.ofSector data).Mountable := by
  constructor
  · intro safe data next reading
    obtain ⟨result, after, stop, checked, _, _⟩ := safe
    rw [initWith, reading] at checked
    simp only at checked
    cases outcome : (new start last partId).initFrom checkedSub (Fat32Header.ofSector data) with
    | error fault => simp [outcome] at checked
    | ok fs => exact mountable_of_initFrom outcome
  · intro mountable
    cases reading : (new start last partId).toFilesystem.read device 0 state with
    | mk data next =>
      cases data with
      | none =>
        refine ⟨.error .blockError, new start last partId, next, ?_, ?_, ?_⟩
        · rw [initWith, reading]
        · rw [init, initWith, reading]
        · intro success
          cases success
      | some data =>
        have safe := mountable data next reading
        have inside := (firstData_le_total safe.sectorSize).mpr safe.dataInside
        refine ⟨.ok (), mounted start last partId (.ofSector data), next, ?_, ?_, ?_⟩
        · rw [initWith, reading]
          simp only
          rw [initFrom_checked start last partId safe.clusterSize safe.sectorSize,
            if_pos inside]
          rfl
        · exact init_of_read reading safe.clusterSize safe.sectorSize
        · intro _
          exact ⟨toUInt32_ne_zero.mpr safe.sectorSize, toUInt32_ne_zero8.mpr safe.clusterSize,
            inside⟩

def shortHeader : Fat32Header := ⟨⟨512, 1, 2, 0, 0, 1, 0, 0⟩, 0, 0⟩

/-- A boot sector of zeros has no cluster size to divide by. The short volume is
mounted, and the number of its data sectors wraps. -/
theorem unsafe_boot_sectors :
    (new 0 0 0).init (.reliable fun _ => Vector.replicate 512 0) () = .error .panicked ∧
      ∃ after, (new 0 0 0).init (.reliable fun _ => shortHeader.toSector) () =
          .ok (.ok (), after, ()) ∧
        after.sectors = 1 ∧ after.firstDataSector = 2 ∧ after.dataSectorCount = 0xffffffff :=
  ⟨rfl, mounted 0 0 0 shortHeader, init_toSector 0 (by decide) (by decide) (by decide),
    by decide, by decide, by decide⟩

end FilesystemFields

end HypervisorFirmware.Fat
