import HypervisorFirmware.Efi.BlockWrappers
import HypervisorFirmware.Efi.Types
import HypervisorFirmware.Foundation.Buffer

/-! # Reading blocks of a partition

`read_blocks` of `efi/block.rs` reads sectors from the start of a partition on. It adds
the caller's block number to the first sector of the partition and does not know the
last one. -/

namespace HypervisorFirmware.Efi

open Fat (SectorDevice Sector)
open HypervisorFirmware.Part

variable {State : Type}

/-! ## The model -/

def asMutSlice (region : MemoryRegion) (offset length : UInt64) : Exec UInt64 :=
  if offset + length ≤ region.length then .ok (region.base + offset) else .error .panicked

/-- The loop of `read_blocks` for the blocks that are left from `i` on. A read that fails
does not say what it has done to its part of the buffer. -/
def readBlocksFrom (device : SectorDevice State) (wrapper : BlockWrapper) (start : UInt64)
    (region : MemoryRegion) : (blocks i : Nat) → Buffer → State →
      Exec ((Status × Buffer) × State)
  | 0, _, buffer, state => .ok ((.success, buffer), state)
  | blocks + 1, i, buffer, state => do
      let data ← asMutSlice region (UInt64.ofNat i * 512) 512
      match device.read (wrapper.startLba + start + UInt64.ofNat i) state with
      | (none, state) => return ((.deviceError, buffer), state)
      | (some sector, state) => do
          let buffer ← buffer.write data sector.toList
          readBlocksFrom device wrapper start region blocks (i + 1) buffer state

def readBlocks (device : SectorDevice State) (wrapper : BlockWrapper) (start size : UInt64)
    (buffer : Buffer) (state : State) : Exec ((Status × Buffer) × State) :=
  readBlocksFrom device wrapper start ⟨buffer.base, size⟩ (size.toNat / 512) 0 buffer state

/-! ## Which sectors are read -/

def logged (device : SectorDevice State) : SectorDevice (State × List UInt64) where
  content := device.content
  fails sector := fun (state, log) =>
    let (failed, state) := device.fails sector state
    (failed, (state, log ++ [sector]))

theorem read_logged (device : SectorDevice State) (sector : UInt64) (state : State)
    (log : List UInt64) :
    (logged device).read sector (state, log) =
      ((device.read sector state).1, ((device.read sector state).2, log ++ [sector])) := by
  rcases outcome : device.fails sector state with ⟨_ | _, after⟩
  · simp [SectorDevice.read, logged, outcome]
  · simp [SectorDevice.read, logged, outcome]

def contentsFrom (content : UInt64 → Sector) : (lba : UInt64) → (sectors : Nat) → List UInt8
  | _, 0 => []
  | lba, sectors + 1 => (content lba).toList ++ contentsFrom content (lba + 1) sectors

def sectorsFrom : (lba : UInt64) → (sectors : Nat) → List UInt64
  | _, 0 => []
  | lba, sectors + 1 => lba :: sectorsFrom (lba + 1) sectors

/-- The block device of a partition from `first` to `last` stays inside it: its media
ends with the partition, and a read either returns an error or fills the whole buffer
with the sectors from `first + start` on, all of them in the partition. -/
def StaysInside (device : SectorDevice State) (wrapper : BlockWrapper) (first last : UInt64)
    (start size : UInt64) (buffer : Buffer) (state : State) : Prop :=
  wrapper.lastBlock = last - first ∧
    ∃ status filled after sectors,
      readBlocks (logged device) wrapper start size buffer (state, []) =
        .ok ((status, filled), (after, sectors)) ∧
      (status = .success →
        (∀ sector ∈ sectors, first ≤ sector ∧ sector ≤ last) ∧
        sectors.map UInt64.toNat = List.range' (first.toNat + start.toNat) sectors.length ∧
        filled.bytes = sectors.flatMap fun sector => (device.content sector).toList)

/-- The condition: the partition is as long as the disk, and a read of the device fails
or the blocks are whole ones of the partition. -/
def BlocksInside (device : SectorDevice State) (capacity first last start size : UInt64)
    (state : State) : Prop :=
  capacity - 1 = last - first ∧
    (readable device (size.toNat / 512) (first + start) state < size.toNat / 512 ∨
      512 ∣ size.toNat ∧
        (size = 0 ∨ first.toNat + start.toNat + size.toNat / 512 ≤ last.toNat + 1))

/-! ## The loop -/

theorem flatMap_sectorsFrom (content : UInt64 → Sector) (lba : UInt64) (sectors : Nat) :
    (sectorsFrom lba sectors).flatMap (fun sector => (content sector).toList) =
      contentsFrom content lba sectors := by
  induction sectors generalizing lba with
  | zero => rfl
  | succ sectors induction => rw [sectorsFrom, List.flatMap_cons, induction, contentsFrom]

@[simp] theorem length_sectorsFrom (lba : UInt64) (sectors : Nat) :
    (sectorsFrom lba sectors).length = sectors := by
  induction sectors generalizing lba with
  | zero => rfl
  | succ sectors induction => rw [sectorsFrom, List.length_cons, induction]

theorem map_toNat_sectorsFrom {lba : UInt64} {sectors : Nat}
    (noWrap : lba.toNat + sectors ≤ 2 ^ 64) :
    (sectorsFrom lba sectors).map UInt64.toNat = List.range' lba.toNat sectors := by
  induction sectors generalizing lba with
  | zero => rfl
  | succ sectors induction =>
    cases sectors with
    | zero => rfl
    | succ sectors =>
      have next : (lba + 1).toNat = lba.toNat + 1 := by
        rw [UInt64.toNat_add]
        change (lba.toNat + 1) % 2 ^ 64 = lba.toNat + 1
        omega
      rw [sectorsFrom, List.map_cons, induction (by omega), next, ← List.range'_succ]

theorem sectorsFrom_inside_iff (first last start : UInt64) (sectors : Nat) :
    ((∀ sector ∈ sectorsFrom (first + start) sectors, first ≤ sector ∧ sector ≤ last) ∧
      (sectorsFrom (first + start) sectors).map UInt64.toNat =
        List.range' (first.toNat + start.toNat) sectors) ↔
      sectors = 0 ∨ first.toNat + start.toNat + sectors ≤ last.toNat + 1 := by
  constructor
  · rintro ⟨inside, consecutive⟩
    by_cases none : sectors = 0
    · exact .inl none
    · right
      have member : first.toNat + start.toNat + (sectors - 1) ∈
          (sectorsFrom (first + start) sectors).map UInt64.toNat := by
        rw [consecutive, List.mem_range'_1]
        omega
      rcases List.mem_map.mp member with ⟨sector, isSector, number⟩
      have bound := UInt64.le_iff_toNat_le.mp (inside sector isSector).2
      omega
  · intro fits
    by_cases none : sectors = 0
    · subst none
      exact ⟨by simp [sectorsFrom], rfl⟩
    · have bound := last.toNat_lt
      have begins : (first + start).toNat = first.toNat + start.toNat := by
        rw [UInt64.toNat_add, Nat.mod_eq_of_lt (by omega)]
      have noWrap : (first + start).toNat + sectors ≤ 2 ^ 64 := by omega
      have consecutive := map_toNat_sectorsFrom noWrap
      rw [begins] at consecutive
      refine ⟨?_, consecutive⟩
      intro sector isSector
      have member := List.mem_map_of_mem (f := UInt64.toNat) isSector
      rw [consecutive, List.mem_range'_1] at member
      rw [UInt64.le_iff_toNat_le, UInt64.le_iff_toNat_le]
      omega

theorem asMutSlice_block (base : UInt64) {size : UInt64} {i : Nat}
    (inside : 512 * (i + 1) ≤ size.toNat) :
    (UInt64.ofNat i * 512).toNat = 512 * i ∧
      asMutSlice ⟨base, size⟩ (UInt64.ofNat i * 512) 512 = .ok (base + UInt64.ofNat i * 512) := by
  have bound := size.toNat_lt
  have offset : (UInt64.ofNat i * 512).toNat = 512 * i := by
    rw [UInt64.toNat_mul, UInt64.toNat_ofNat']
    change i % 2 ^ 64 * 512 % 2 ^ 64 = 512 * i
    omega
  refine ⟨offset, if_pos ?_⟩
  rw [UInt64.le_iff_toNat_le, UInt64.toNat_add, offset]
  change (512 * i + 512) % 2 ^ 64 ≤ size.toNat
  omega

theorem readBlocksFrom_eq (device : SectorDevice State) (wrapper : BlockWrapper)
    {start size : UInt64} {blocks i : Nat} {buffer : Buffer} (state : State)
    (log : List UInt64) {lba : UInt64} (begins : wrapper.startLba + start + UInt64.ofNat i = lba)
    (whole : buffer.size = size.toNat) (inside : 512 * (i + blocks) ≤ size.toNat) :
    ∃ status filled after sectors,
      readBlocksFrom (logged device) wrapper start ⟨buffer.base, size⟩ blocks i buffer
          (state, log) = .ok ((status, filled), (after, sectors)) ∧
      if readable device blocks lba state = blocks then
        status = .success ∧ sectors = log ++ sectorsFrom lba blocks ∧
          filled.bytes = buffer.bytes.take (512 * i) ++ contentsFrom device.content lba blocks ++
            buffer.bytes.drop (512 * (i + blocks))
      else status = .deviceError := by
  induction blocks generalizing i buffer state log lba with
  | zero =>
    refine ⟨_, _, _, _, rfl, ?_⟩
    simp [readable, sectorsFrom, contentsFrom]
  | succ blocks induction =>
    have fitsHere : 512 * (i + 1) ≤ size.toNat := by omega
    rcases asMutSlice_block buffer.base fitsHere with ⟨offset, slice⟩
    have next : wrapper.startLba + start + UInt64.ofNat (i + 1) = lba + 1 := by
      rw [← begins, UInt64.ofNat_add, ← UInt64.add_assoc]
      rfl
    rw [readBlocksFrom, slice, Exec.ok_bind, begins, readable, read_logged, SectorDevice.read]
    rcases device.fails lba state with ⟨_ | _, after⟩
    · let data := (device.content lba).toList
      have length : data.length = 512 := Vector.length_toList
      have fits : 512 * i + data.length ≤ buffer.size := by omega
      have written : buffer.write (buffer.base + UInt64.ofNat i * 512) data =
          .ok (buffer.overwrite (512 * i) data) := by
        rw [Buffer.write_base_add, offset, if_pos (.inr fits)]
      have same := Buffer.overwrite_sameObject buffer (512 * i) data
      have bytes := Buffer.bytes_overwrite buffer fits
      have before : (buffer.bytes.take (512 * i) ++ data).length = 512 * (i + 1) := by
        rw [List.length_append, List.length_take, length]
        unfold Buffer.size at fits
        omega
      rcases induction after (log ++ [lba]) next (same.size.trans whole) (by omega) with
        ⟨status, filled, last, sectors, returned, outcome⟩
      refine ⟨status, filled, last, sectors, ?_, ?_⟩
      · simp only [data] at written
        simp only [written, Exec.ok_bind]
        exact returned
      · simp only [Nat.add_right_cancel_iff]
        split_ifs at outcome ⊢
        · rcases outcome with ⟨isSuccess, isSectors, isBytes⟩
          refine ⟨isSuccess, ?_, ?_⟩
          · rw [isSectors, sectorsFrom, List.append_assoc, List.singleton_append]
          · have behind : 512 * i + data.length + (512 * (i + 1 + blocks) - 512 * (i + 1)) =
                512 * (i + (blocks + 1)) := by omega
            rw [isBytes, bytes, List.take_left' before, contentsFrom, ← List.append_assoc,
              List.drop_append, List.drop_of_length_le (by omega), before, List.nil_append,
              List.drop_drop, behind]
        · exact outcome
    · exact ⟨_, _, _, _, rfl, by simp⟩

/-- The block device of a partition stays inside it exactly if the blocks do. -/
theorem staysInside_iff_blocksInside (device : SectorDevice State) (capacity : UInt64)
    (partitionNumber : UInt32) (first last : UInt64) (uuid : Vector UInt8 16)
    (start size : UInt64) {buffer : Buffer} (whole : buffer.size = size.toNat) (state : State) :
    StaysInside device (.new capacity partitionNumber first last uuid) first last start size
        buffer state ↔
      BlocksInside device capacity first last start size state := by
  have begins : (BlockWrapper.new capacity partitionNumber first last uuid).startLba + start +
      UInt64.ofNat 0 = first + start := UInt64.add_zero _
  have inside : 512 * (0 + size.toNat / 512) ≤ size.toNat := by omega
  rcases readBlocksFrom_eq device _ state [] begins whole inside with
    ⟨status, filled, after, sectors, returned, outcome⟩
  have bound : readable device (size.toNat / 512) (first + start) state ≤ size.toNat / 512 := by
    rw [readable_eq_min device (Nat.le_refl _)]
    exact Nat.min_le_left _ _
  rw [StaysInside, BlocksInside, readBlocks, returned]
  apply and_congr_right
  intro _
  split_ifs at outcome with reads
  · rcases outcome with ⟨isSuccess, isSectors, isBytes⟩
    rw [List.nil_append] at isSectors
    -- The bytes behind the last whole block stay as they were.
    have allFilled : filled.bytes =
        (sectors.flatMap fun sector => (device.content sector).toList) ↔ 512 ∣ size.toNat := by
      rw [isBytes, isSectors, flatMap_sectorsFrom, Nat.mul_zero, List.take_zero, List.nil_append,
        List.append_right_eq_self, List.drop_eq_nil_iff, Nat.zero_add]
      unfold Buffer.size at whole
      omega
    have allInside := sectorsFrom_inside_iff first last start (size.toNat / 512)
    rw [← isSectors] at allInside
    have length : sectors.length = size.toNat / 512 := by rw [isSectors, length_sectorsFrom]
    have zero : size = 0 ↔ size.toNat = 0 := UInt64.toNat_inj.symm
    rw [zero]
    constructor
    · rintro ⟨status', filled', after', sectors', same, successful⟩
      cases same
      rcases successful isSuccess with ⟨inPartition, consecutive, isFilled⟩
      rw [length] at consecutive
      have whole := allFilled.mp isFilled
      have fits := allInside.mp ⟨inPartition, consecutive⟩
      exact .inr ⟨whole, by omega⟩
    · intro condition
      have blocks : 512 ∣ size.toNat ∧ (size.toNat = 0 ∨
          first.toNat + start.toNat + size.toNat / 512 ≤ last.toNat + 1) := by
        rcases condition with failed | blocks
        · omega
        · exact blocks
      have fits := allInside.mpr (by omega)
      refine ⟨status, filled, after, sectors, rfl, fun _ => ⟨fits.1, ?_, ?_⟩⟩
      · rw [length]
        exact fits.2
      · exact allFilled.mpr blocks.1
  · constructor
    · exact fun _ => .inl (Nat.lt_of_le_of_ne bound reads)
    · intro _
      refine ⟨status, filled, after, sectors, rfl, fun isSuccess => ?_⟩
      rw [outcome] at isSuccess
      cases isSuccess

/-! ## Two reads -/

def zeroSectors : SectorDevice Unit := .reliable fun _ => Vector.replicate 512 0

theorem sectorBuffer_bounded :
    (0x1000 : UInt64).toNat + (List.replicate 512 (0xff : UInt8)).length ≤ 2 ^ 64 := by
  rw [List.length_replicate]
  decide

def sectorBuffer : Buffer := ⟨0x1000, List.replicate 512 0xff, sectorBuffer_bounded⟩

theorem size_sectorBuffer : sectorBuffer.size = (512 : UInt64).toNat := List.length_replicate

theorem staysInside_iff_blocksInside_whole_disk :
    StaysInside zeroSectors (.new 4096 0 0 4095 PartitionEntry.noGuid) 0 4095 7 512 sectorBuffer
      () :=
  (staysInside_iff_blocksInside zeroSectors 4096 0 0 4095 PartitionEntry.noGuid 7 512
    size_sectorBuffer ()).mpr ⟨rfl, .inr ⟨by decide, .inr (by decide)⟩⟩

/-- The block behind a partition is read and returned, and the media of the partition
ends with the disk. -/
theorem not_staysInside_behind_partition :
    (BlockWrapper.new 8192 1 2048 4095 PartitionEntry.noGuid).lastBlock = 8191 ∧
      (∃ filled after, readBlocks (logged zeroSectors)
          (.new 8192 1 2048 4095 PartitionEntry.noGuid) 2048 512 sectorBuffer ((), []) =
        .ok ((.success, filled), (after, [4096]))) ∧
      ¬StaysInside zeroSectors (.new 8192 1 2048 4095 PartitionEntry.noGuid) 2048 4095 2048 512
        sectorBuffer () := by
  refine ⟨rfl, ?_, ?_⟩
  · have begins : (BlockWrapper.new 8192 1 2048 4095 PartitionEntry.noGuid).startLba + 2048 +
        UInt64.ofNat 0 = 4096 := rfl
    rcases readBlocksFrom_eq zeroSectors _ () [] begins size_sectorBuffer
      (show 512 * (0 + 1) ≤ (512 : UInt64).toNat by decide) with
      ⟨status, filled, after, sectors, returned, outcome⟩
    have reads : readable zeroSectors 1 4096 () = 1 := rfl
    rw [if_pos reads] at outcome
    rcases outcome with ⟨rfl, rfl, _⟩
    exact ⟨filled, after, returned⟩
  · intro inside
    exact absurd inside.1 (by decide)

end HypervisorFirmware.Efi
