import HypervisorFirmware.Alloc.Calloc
import HypervisorFirmware.Fat.Filesystem

/-! # File handles

The calls of `efi/file.rs` that create and close file handles, and what they
leave of the memory they obtain. -/

namespace HypervisorFirmware.Efi

open Alloc

/-- How the compiler lays out a `FileWrapper`: its size, and where in it the
protocol interface is that callers see as the handle. -/
structure FileLayout where
  size : UInt64
  protoOffset : UInt64
  notEmpty : 0 < size
  fits : size.toNat + 4095 < 2 ^ 64

namespace FileLayout

variable (layout : FileLayout)

def createFile (allocator : Allocator) : Exec (Except Status UInt64 × Allocator) :=
  Calloc.malloc layout.size allocator

def containerOf (proto : UInt64) : UInt64 := proto - layout.protoOffset

end FileLayout

/-- `open` behind the decoding of its path. -/
def openDecoded {m : Type → Type} [Monad m] {File Wrapper : Type} (lacksParent : m Bool)
    (lookup : m (Except Fat.Error File)) (createFile : File → m (Except Status Wrapper)) :
    m (Except Status Wrapper) := do
  if ← lacksParent then return .error .invalidParameter
  else
    match ← lookup with
    | .ok f => createFile f
    | .error .notFound => return .error .notFound
    | .error _ => return .error .deviceError

inductive FileCall
  | openVolume (root : Except Fat.Error Unit)
  /-- `open` of a path, which is `..` without a parent, or is looked up. -/
  | openFile (noParent : Bool) (lookup : Except Fat.Error Unit)
  /-- `close` of a handle, where `calloc::free` has its parameter at `slot`. -/
  | close (proto slot : UInt64)

structure FileResponse where
  status : Status
  handle : Option UInt64
  deriving DecidableEq, Repr

namespace FileLayout

variable (layout : FileLayout)

def respond : Except Status UInt64 → FileResponse
  | .error status => ⟨status, none⟩
  | .ok wrapper => ⟨.success, some (wrapper + layout.protoOffset)⟩

def returnFile (allocator : Allocator) : Exec (FileResponse × Allocator) := do
  let (created, next) ← layout.createFile allocator
  return (layout.respond created, next)

def openVolume (root : Except Fat.Error Unit) (allocator : Allocator) :
    Exec (FileResponse × Allocator) :=
  match root with
  | .error _ => .ok (⟨.deviceError, none⟩, allocator)
  | .ok () => layout.returnFile allocator

def openFile (noParent : Bool) (lookup : Except Fat.Error Unit) (allocator : Allocator) :
    Exec (FileResponse × Allocator) := do
  let opening : StateT Allocator Exec (Except Status UInt64) :=
    openDecoded (pure noParent) (pure lookup) fun () => layout.createFile
  let (created, next) ← opening allocator
  return (layout.respond created, next)

def close (proto slot : UInt64) (allocator : Allocator) : Exec (FileResponse × Allocator) := do
  let next ← Calloc.free slot (layout.containerOf proto) allocator
  return (⟨.success, none⟩, next)

def step (allocator : Allocator) : FileCall → Exec (FileResponse × Allocator)
  | .openVolume root => layout.openVolume root allocator
  | .openFile noParent lookup => layout.openFile noParent lookup allocator
  | .close proto slot => layout.close proto slot allocator

def run : Allocator → List FileCall → Exec (List FileResponse × Allocator) :=
  Machine.run layout.step

/-! ## What the calls leave behind -/

/-- No descriptor starts where a `close` has its parameter on the stack. -/
def StackApart : FileCall → List Region → Prop
  | .close _ slot, regions => ∀ region ∈ regions, region.physicalStart ≠ slot
  | _, _ => True

instance : ∀ call regions, Decidable (StackApart call regions)
  | .close _ slot, regions =>
    inferInstanceAs (Decidable (∀ region ∈ regions, region.physicalStart ≠ slot))
  | .openVolume _, _ => isTrue trivial
  | .openFile _ _, _ => isTrue trivial

/-- The calls return, and every byte has the type it had before the first one. -/
def TypesRestored (allocator : Allocator) (calls : List FileCall) : Prop :=
  ∃ responses final, layout.run allocator calls = .ok (responses, final) ∧
    allocator.Reports fun regions => final.Reports fun regions' =>
      ∀ byte, typeAt regions' byte = typeAt regions byte

def NoMemoryFor : FileCall → List Region → Prop
  | .openVolume (.ok ()), regions => Calloc.NoMemory (Calloc.pagesFor layout.size) regions
  | .openFile false (.ok ()), regions =>
    Calloc.NoMemory (Calloc.pagesFor layout.size) regions
  | _, _ => True

/-! ## The effect on the memory map -/

def returnFileMap (map : MemoryMap) : FileResponse × MemoryMap :=
  let (created, next) := Calloc.mallocMap layout.size map
  (layout.respond created, next)

def stepMap (map : MemoryMap) : FileCall → FileResponse × MemoryMap
  | .openVolume (.error _) => (⟨.deviceError, none⟩, map)
  | .openVolume (.ok ()) => layout.returnFileMap map
  | .openFile true _ => (⟨.invalidParameter, none⟩, map)
  | .openFile false (.ok ()) => layout.returnFileMap map
  | .openFile false (.error .notFound) => (⟨.notFound, none⟩, map)
  | .openFile false (.error _) => (⟨.deviceError, none⟩, map)
  | .close _ slot => (⟨.success, none⟩, (map.free slot).2)

variable {layout : FileLayout} {allocator : Allocator} {map : MemoryMap}

theorem returnFile_represents (represents : allocator.Represents map) :
    ∃ next, layout.returnFile allocator = .ok ((layout.returnFileMap map).1, next) ∧
      next.Represents (layout.returnFileMap map).2 := by
  rcases Calloc.malloc_represents represents layout.size with ⟨next, returned, kept⟩
  refine ⟨next, ?_, kept⟩
  rw [returnFile, createFile, returned]
  rfl

theorem step_represents (layout : FileLayout) (represents : allocator.Represents map)
    (call : FileCall) :
    ∃ next, layout.step allocator call = .ok ((layout.stepMap map call).1, next) ∧
      next.Represents (layout.stepMap map call).2 := by
  cases call with
  | openVolume root =>
    cases root with
    | error error => exact ⟨allocator, rfl, represents⟩
    | ok found => exact returnFile_represents represents
  | openFile noParent lookup =>
    cases noParent with
    | true => exact ⟨allocator, rfl, represents⟩
    | false =>
      cases lookup with
      | ok found => exact returnFile_represents represents
      | error error => cases error <;> exact ⟨allocator, rfl, represents⟩
  | close proto slot =>
    rcases Calloc.free_represents represents slot (layout.containerOf proto) with
      ⟨next, freed, kept⟩
    refine ⟨next, ?_, kept⟩
    rw [step, close, freed]
    rfl

theorem stepMap_obtains (layout : FileLayout) (laid : Laid map.regions) {call : FileCall}
    (apart : StackApart call map.regions) :
    Calloc.Obtains (¬layout.NoMemoryFor call map.regions) map.regions
      (layout.stepMap map call).2.regions := by
  have declined : Calloc.Obtains (¬True) map.regions map.regions :=
    .nothing laid (not_not.mpr trivial) fun _ => rfl
  have opened : Calloc.Obtains (¬Calloc.NoMemory (Calloc.pagesFor layout.size) map.regions)
      map.regions (layout.returnFileMap map).2.regions :=
    Calloc.mallocMap_obtains laid layout.notEmpty layout.fits
  cases call with
  | openVolume root =>
    cases root with
    | error error => exact declined
    | ok found => exact opened
  | openFile noParent lookup =>
    cases noParent with
    | true => exact declined
    | false =>
      cases lookup with
      | ok found => exact opened
      | error error => cases error <;> exact declined
  | close proto slot => exact (Calloc.free_obtains laid apart).congr not_true.symm

theorem run_obtains (represents : allocator.Represents map) (laid : Laid map.regions)
    {calls : List FileCall}
    (apart : Machine.EveryStep layout.step
      (fun state call => state.Reports (StackApart call)) allocator calls) :
    ∃ responses final map', layout.run allocator calls = .ok (responses, final) ∧
      final.Represents map' ∧
      Calloc.Obtains
        (¬Machine.EveryStep layout.step
          (fun state call => state.Reports (layout.NoMemoryFor call)) allocator calls)
        map.regions map'.regions := by
  induction calls generalizing allocator map with
  | nil =>
    exact ⟨[], allocator, map, rfl, represents, .nothing laid (not_not.mpr trivial) fun _ => rfl⟩
  | cons call rest induction =>
    have effect := stepMap_obtains layout laid ((represents.reports_iff _).mp apart.1)
    rcases step_represents layout represents call with ⟨next, stepped, kept⟩
    rcases induction kept effect.laid (apart.2 _ next stepped) with
      ⟨responses, final, map', ran, finalKept, later⟩
    rw [run] at ran
    refine ⟨(layout.stepMap map call).1 :: responses, final, map', ?_, finalKept, ?_⟩
    · simp [run, Machine.run, stepped, ran]
    · apply (effect.trans later).congr
      simp only [Machine.EveryStep, represents.reports_iff, stepped, Except.ok.injEq,
        Prod.mk.injEq, not_and_or]
      simp

/-- Whatever is opened and closed, in whatever order: all memory has its type back
exactly if no call found memory for a file. -/
theorem typesRestored_iff_no_memory (layout : FileLayout) (allocator : Allocator)
    (wellLaid : Calloc.WellLaid allocator) (calls : List FileCall)
    (apart : Machine.EveryStep layout.step
      (fun state call => state.Reports (StackApart call)) allocator calls) :
    layout.TypesRestored allocator calls ↔
      Machine.EveryStep layout.step
        (fun state call => state.Reports (layout.NoMemoryFor call)) allocator calls := by
  rcases wellLaid with ⟨map, represents, laid⟩
  rcases run_obtains represents laid apart with
    ⟨responses, final, map', ran, finalRepresents, effect⟩
  have restored : layout.TypesRestored allocator calls ↔
      ∀ byte, typeAt map'.regions byte = typeAt map.regions byte := by
    simp [TypesRestored, ran, represents.reports_iff, finalRepresents.reports_iff]
  rw [restored, effect.same_iff, not_not]

/-! ## One handle -/

def sixteenPages : List Operation := Alloc.sixteenPages.map InitialRegion.operation

def sample : FileLayout where
  size := 0x600
  protoOffset := 0x10
  notEmpty := by decide
  fits := by decide

def openAndClose : List FileCall :=
  [.openVolume (.ok ()), .close 0x200010 0x7ff00000]

theorem openAndClose_apart (represents : allocator.Represents
      (MemoryMap.empty.run sixteenPages)) :
    Machine.EveryStep sample.step (fun state call => state.Reports (StackApart call))
      allocator openAndClose := by
  refine ⟨(represents.reports_iff _).mpr trivial, ?_⟩
  intro response next stepped
  rcases step_represents sample represents (.openVolume (.ok ())) with ⟨next', stepped', kept⟩
  rw [stepped, Except.ok.injEq, Prod.mk.injEq] at stepped'
  rw [← stepped'.2] at kept
  refine ⟨(kept.reports_iff _).mpr ?_, fun _ _ _ => trivial⟩
  decide

theorem openAndClose_run (represents : allocator.Represents
      (MemoryMap.empty.run sixteenPages)) :
    ∃ final,
      sample.run allocator openAndClose =
        .ok ([⟨.success, some 0x200010⟩, ⟨.success, none⟩], final) ∧
      final.Reports fun regions =>
        typeAt regions 0x200000 = some MemoryType.loaderData.toUInt32 := by
  rcases step_represents sample represents (.openVolume (.ok ())) with ⟨next, opened, kept⟩
  rcases step_represents sample kept (.close 0x200010 0x7ff00000) with ⟨final, closed, finalKept⟩
  refine ⟨final, ?_, (finalKept.reports_iff _).mpr (by decide)⟩
  simp only [run, openAndClose, Machine.run, opened, closed]
  rfl

theorem typesRestored_iff_no_memory_one_handle :
    ∃ responses allocator,
      Alloc.run Allocator.new sixteenPages = .ok (responses, allocator) ∧
      (sample.TypesRestored allocator openAndClose ↔
        Machine.EveryStep sample.step
          (fun state call => state.Reports (sample.NoMemoryFor call)) allocator
          openAndClose) := by
  rcases run_represents Allocator.new_represents sixteenPages with
    ⟨allocator, ran, represents⟩
  have wellLaid : Calloc.WellLaid allocator :=
    Calloc.wellLaid_of_run sixteenPages_inOrder (List.forall_mem_nil _) ran
  exact ⟨_, allocator, ran, typesRestored_iff_no_memory sample allocator wellLaid
    openAndClose (openAndClose_apart represents)⟩

/-- The one handle is closed, and its page is still taken. -/
theorem not_typesRestored_open_and_close :
    ∃ responses allocator final,
      Alloc.run Allocator.new sixteenPages = .ok (responses, allocator) ∧
      sample.run allocator openAndClose =
        .ok ([⟨.success, some 0x200010⟩, ⟨.success, none⟩], final) ∧
      Machine.EveryStep sample.step (fun state call => state.Reports (StackApart call))
        allocator openAndClose ∧
      ¬sample.TypesRestored allocator openAndClose := by
  rcases run_represents Allocator.new_represents sixteenPages with
    ⟨allocator, ran, represents⟩
  rcases openAndClose_run represents with ⟨final, closed, taken⟩
  refine ⟨_, allocator, final, ran, closed, openAndClose_apart represents, ?_⟩
  rintro ⟨responses, final', closed', restored⟩
  rw [closed, Except.ok.injEq, Prod.mk.injEq] at closed'
  rw [← closed'.2, represents.reports_iff] at restored
  rcases taken with ⟨descriptors, reported, taken⟩
  rcases restored with ⟨descriptors', reported', same⟩
  rw [reported, Except.ok.injEq] at reported'
  rw [← reported'] at same
  have before : typeAt (MemoryMap.empty.run sixteenPages).regions 0x200000 =
      some MemoryType.conventionalMemory.toUInt32 := by decide
  rw [same 0x200000, before] at taken
  exact absurd taken (by decide)

end FileLayout

end HypervisorFirmware.Efi
