import HypervisorFirmware.Fat.Mount

/-! # The geometry of a volume

Where the parts of a FAT volume lie, in numbers without bounds, and how far the
fields that `init` works out agree with it. -/

namespace HypervisorFirmware.Fat

namespace Fat32Header

variable (h : Fat32Header)

def fatSize : Nat :=
  if h.legacySectorsPerFat = 0 then h.sectorsPerFat.toNat else h.legacySectorsPerFat.toNat

def rootDirectory : Nat := (32 * h.rootDirCount.toNat + 511) / 512

def dataStart : Nat :=
  h.reservedSectors.toNat + h.fatCount.toNat * h.fatSize + h.rootDirectory

def clusterCount : Nat :=
  (h.totalSectors - h.dataStart) / h.sectorsPerCluster.toNat

structure WellSized : Prop where
  sectorSize : h.bytesPerSector.toNat = 512
  clusterSize : 1 ≤ h.sectorsPerCluster.toNat
  wideRoot : h.legacySectorsPerFat = 0 → h.rootDirCount.toNat = 0
  fits : h.dataStart ≤ h.totalSectors

/-- The volume has no cluster of data, so few clusters in all that it is taken for
FAT12, a root directory below 64 KiB, and no table of which only the 32-bit field
gives the size. -/
structure Degenerate : Prop where
  noData : h.totalSectors - h.dataStart < h.sectorsPerCluster.toNat
  small : h.totalSectors / h.sectorsPerCluster.toNat < 4085
  root : h.rootDirCount.toNat < 2048
  table : h.legacySectorsPerFat ≠ 0 ∨ h.fatCount.toNat = 0 ∨ h.sectorsPerFat.toNat = 0

end Fat32Header

structure FilesystemFields.Fits (fs : FilesystemFields) (h : Fat32Header) : Prop where
  rootDirSectors : fs.rootDirSectors.toNat = h.rootDirectory
  firstDataSector : fs.firstDataSector.toNat = h.dataStart
  dataClusterCount : fs.dataClusterCount.toNat = h.clusterCount
  fat12 : fs.fatType = .fat12 ↔ h.clusterCount < 4085
  fat16 : fs.fatType = .fat16 ↔ 4085 ≤ h.clusterCount ∧ h.clusterCount < 65525
  fat32 : fs.fatType = .fat32 ↔ 65525 ≤ h.clusterCount

namespace Fat32Header

/-! ## The parts one by one -/

variable {h : Fat32Header}

theorem rootSectors_toNat (sectorSize : h.bytesPerSector.toNat = 512)
    (narrow : h.totalSectors / h.sectorsPerCluster.toNat < 65525) :
    h.rootSectors.toNat = (32 * h.rootDirCount.toNat % 2 ^ 16 + 511) / 512 := by
  have small : ¬h.fatType = .fat32 := by
    rw [fatType_eq_fat32, not_not]
    exact narrow
  rw [rootSectors, if_neg small, UInt32.toNat_div, UInt32.toNat_sub, UInt32.toNat_add,
    UInt16.toNat_toUInt32, UInt16.toNat_toUInt32, UInt16.toNat_mul, sectorSize]
  simp only [UInt16.reduceToNat, UInt32.reduceToNat]
  omega

theorem sectorsBeforeData_narrow (sectorSize : h.bytesPerSector.toNat = 512)
    (narrow : h.totalSectors / h.sectorsPerCluster.toNat < 65525) :
    h.sectorsBeforeData % 2 ^ 32 =
      h.reservedSectors.toNat + h.fatCount.toNat * h.legacySectorsPerFat.toNat +
        (32 * h.rootDirCount.toNat % 2 ^ 16 + 511) / 512 := by
  have reserved := h.reservedSectors.toNat_lt
  have tables : h.fatCount.toNat * h.legacySectorsPerFat.toNat ≤ 255 * 65535 :=
    Nat.mul_le_mul (Nat.le_of_lt_succ h.fatCount.toNat_lt)
      (Nat.le_of_lt_succ h.legacySectorsPerFat.toNat_lt)
  rw [sectorsBeforeData, if_pos narrow, sectorSize]
  omega

theorem tables_eq_iff (h : Fat32Header) :
    h.fatCount.toNat * h.legacySectorsPerFat.toNat = h.fatCount.toNat * h.fatSize ↔
      h.legacySectorsPerFat ≠ 0 ∨ h.fatCount.toNat = 0 ∨ h.sectorsPerFat.toNat = 0 := by
  rw [fatSize]
  by_cases wide : h.legacySectorsPerFat = 0
  · have zero : h.legacySectorsPerFat.toNat = 0 := by rw [wide]; rfl
    rw [if_pos wide, zero, Nat.mul_zero, eq_comm, Nat.mul_eq_zero]
    simp [wide]
  · rw [if_neg wide]
    simp [wide]

/-- The number of clusters is right only where it is zero: the sectors are divided by
the size of a sector, not by that of a cluster. -/
theorem div_sectorSize_eq_iff {sectors size : Nat} (positive : 1 ≤ size) (byte : size < 256) :
    sectors / 512 = sectors / size ↔ sectors < size := by
  constructor
  · intro same
    by_contra large
    have data : 1 ≤ sectors / size := (Nat.le_div_iff_mul_le positive).mpr (by omega)
    have twice : sectors / 512 * 2 ≤ sectors / size := by
      rw [Nat.le_div_iff_mul_le positive, Nat.mul_assoc]
      calc sectors / 512 * (2 * size)
          ≤ sectors / 512 * 512 := Nat.mul_le_mul_left _ (by omega)
        _ ≤ sectors := Nat.div_mul_le_self sectors 512
    omega
  · intro small
    rw [Nat.div_eq_of_lt small, Nat.div_eq_of_lt (by omega)]

theorem dataClusters_toNat (sectorSize : h.bytesPerSector.toNat = 512)
    (placed : h.firstData.toNat = h.dataStart) (fits : h.dataStart ≤ h.totalSectors) :
    ((h.total - h.firstData) / h.bytesPerSector.toUInt32).toNat =
      (h.totalSectors - h.dataStart) / 512 := by
  have small : h.totalSectors < 2 ^ 32 := by
    rw [← total_toNat]
    exact h.total.toNat_lt
  rw [UInt32.toNat_div, UInt32.toNat_sub, total_toNat, placed, UInt16.toNat_toUInt32, sectorSize]
  omega

theorem fatType_eq (h : Fat32Header) :
    h.fatType =
      if h.totalSectors / h.sectorsPerCluster.toNat < 4085 then .fat12
      else if h.totalSectors / h.sectorsPerCluster.toNat < 65525 then .fat16
      else .fat32 := by
  rw [fatType, ofClusters_eq, UInt32.toNat_div, total_toNat, UInt8.toNat_toUInt32]

end Fat32Header

/-! ## Together -/

namespace FilesystemFields

theorem fits_of_degenerate {h : Fat32Header} (sized : h.WellSized) (degenerate : h.Degenerate)
    (start last : UInt64) (partId : UInt32) : (mounted start last partId h).Fits h := by
  have narrow : h.totalSectors / h.sectorsPerCluster.toNat < 65525 := by
    have small := degenerate.small
    omega
  have few := degenerate.root
  have root : h.rootSectors.toNat = h.rootDirectory := by
    rw [Fat32Header.rootSectors_toNat sized.sectorSize narrow, Fat32Header.rootDirectory]
    omega
  have placed : h.firstData.toNat = h.dataStart := by
    rw [Fat32Header.firstData_toNat (by rw [sized.sectorSize]; decide),
      Fat32Header.sectorsBeforeData_narrow sized.sectorSize narrow,
      h.tables_eq_iff.mpr degenerate.table, Fat32Header.dataStart, Fat32Header.rootDirectory]
    omega
  have none : h.clusterCount = 0 := Nat.div_eq_of_lt degenerate.noData
  have kind : h.fatType = .fat12 := by
    rw [Fat32Header.fatType_eq, if_pos degenerate.small]
  have count : (mounted start last partId h).dataClusterCount.toNat = h.clusterCount := by
    rw [Fat32Header.clusterCount, ← (Fat32Header.div_sectorSize_eq_iff sized.clusterSize
      h.sectorsPerCluster.toNat_lt).mpr degenerate.noData]
    exact Fat32Header.dataClusters_toNat sized.sectorSize placed sized.fits
  have type : (mounted start last partId h).fatType = .fat12 := kind
  refine ⟨root, placed, count, ?_, ?_, ?_⟩
  · simp [type, none]
  · simp [type, none]
  · simp [type, none]

theorem degenerate_of_fits {h : Fat32Header} (sized : h.WellSized) {start last : UInt64}
    {partId : UInt32} (fits : (mounted start last partId h).Fits h) : h.Degenerate := by
  have placed : h.firstData.toNat = h.dataStart := fits.firstDataSector
  have noData : h.totalSectors - h.dataStart < h.sectorsPerCluster.toNat := by
    rw [← Fat32Header.div_sectorSize_eq_iff sized.clusterSize h.sectorsPerCluster.toNat_lt,
      ← Fat32Header.dataClusters_toNat sized.sectorSize placed sized.fits]
    exact fits.dataClusterCount
  -- Without data the volume is FAT12, so the 16-bit fields are taken.
  have kind : h.fatType = .fat12 := by
    apply fits.fat12.mpr
    rw [Fat32Header.clusterCount, Nat.div_eq_of_lt noData]
    decide
  have small : h.totalSectors / h.sectorsPerCluster.toNat < 4085 := by
    rw [Fat32Header.fatType_eq] at kind
    split_ifs at kind with few
    exact few
  have narrow : h.totalSectors / h.sectorsPerCluster.toNat < 65525 := by omega
  have root : h.rootSectors.toNat = h.rootDirectory := fits.rootDirSectors
  rw [Fat32Header.rootSectors_toNat sized.sectorSize narrow, Fat32Header.rootDirectory] at root
  rw [Fat32Header.firstData_toNat (by rw [sized.sectorSize]; decide),
    Fat32Header.sectorsBeforeData_narrow sized.sectorSize narrow, Fat32Header.dataStart,
    Fat32Header.rootDirectory, root] at placed
  refine ⟨noData, small, ?_, h.tables_eq_iff.mp ?_⟩
  · omega
  · omega

variable {State : Type}

/-- `init` gives the geometry of a well-sized volume exactly when the volume is
degenerate. -/
theorem init_fits_iff_degenerate (start last : UInt64) (partId : UInt32)
    (device : SectorDevice State) (state next : State) (data : Sector)
    (reading : (new start last partId).toFilesystem.read device 0 state = (some data, next))
    (sized : (Fat32Header.ofSector data).WellSized) :
    (∃ after, (new start last partId).init device state = .ok (.ok (), after, next) ∧
      after.Fits (Fat32Header.ofSector data)) ↔ (Fat32Header.ofSector data).Degenerate := by
  have clusterSize : (Fat32Header.ofSector data).sectorsPerCluster.toNat ≠ 0 := by
    have positive := sized.clusterSize
    omega
  have sectorSize : (Fat32Header.ofSector data).bytesPerSector.toNat ≠ 0 := by
    rw [sized.sectorSize]
    decide
  have returned : (new start last partId).init device state =
      .ok (.ok (), mounted start last partId (.ofSector data), next) :=
    init_of_read reading clusterSize sectorSize
  rw [returned]
  constructor
  · rintro ⟨after, same, fits⟩
    cases same
    exact degenerate_of_fits sized fits
  · intro degenerate
    exact ⟨_, rfl, fits_of_degenerate sized degenerate start last partId⟩

def fullHeader : Fat32Header := ⟨⟨512, 1, 1, 2, 16, 4, 1, 0⟩, 0, 0⟩

theorem full_volume_fits :
    ∃ after, (new 0 3 0).init (.reliable fun _ => fullHeader.toSector) () =
      .ok (.ok (), after, ()) ∧ after.Fits (Fat32Header.ofSector fullHeader.toSector) := by
  apply (init_fits_iff_degenerate 0 3 0 (.reliable fun _ => fullHeader.toSector) () ()
    fullHeader.toSector rfl ?_).mpr
  · rw [Fat32Header.ofSector_toSector]
    exact ⟨by decide, by decide, by decide, by decide⟩
  · rw [Fat32Header.ofSector_toSector]
    exact ⟨by decide, by decide, by decide, by decide⟩

def floppyHeader : Fat32Header := ⟨⟨512, 1, 1, 2, 224, 2880, 9, 0⟩, 0, 0⟩

def borderHeader : Fat32Header := ⟨⟨512, 1, 1, 2, 224, 4100, 12, 0⟩, 0, 0⟩

theorem floppyHeader_wellSized : floppyHeader.WellSized :=
  ⟨by decide, by decide, by decide, by decide⟩

theorem borderHeader_wellSized : borderHeader.WellSized :=
  ⟨by decide, by decide, by decide, by decide⟩

/-- The floppy disk has 2847 clusters and is given five. The other volume is FAT12 and
is taken for FAT16. -/
theorem geometry_of_floppy_and_border :
    (floppyHeader.WellSized ∧ floppyHeader.clusterCount = 2847 ∧
      ∃ after, (new 0 2879 0).init (.reliable fun _ => floppyHeader.toSector) () =
        .ok (.ok (), after, ()) ∧ after.dataClusterCount = 5) ∧
    (borderHeader.WellSized ∧ borderHeader.clusterCount = 4061 ∧
      ∃ after, (new 0 4099 0).init (.reliable fun _ => borderHeader.toSector) () =
        .ok (.ok (), after, ()) ∧ after.fatType = .fat16) := by
  constructor
  · exact ⟨floppyHeader_wellSized, by decide, mounted 0 2879 0 floppyHeader,
      init_toSector 0 (by decide) (by decide) (by decide), by decide⟩
  · exact ⟨borderHeader_wellSized, by decide, mounted 0 4099 0 borderHeader,
      init_toSector 0 (by decide) (by decide) (by decide), by decide⟩

end FilesystemFields

end HypervisorFirmware.Fat
