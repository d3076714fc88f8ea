import HypervisorFirmware.Alloc.Conservation

/-! # The runtime attribute

`MEMORY_RUNTIME` should mark exactly the runtime services memory. It is set
when an allocation cuts a region, but not when the request takes a whole one,
and a free does not clear it. -/

namespace HypervisorFirmware.Alloc

open Efi

namespace Region

def hasRuntimeAttribute (region : Region) : Bool :=
  region.attributes &&& memoryRuntime != 0

def hasRuntimeType (region : Region) : Bool :=
  region.type == MemoryType.runtimeServicesCode.toUInt32 ||
    region.type == MemoryType.runtimeServicesData.toUInt32

def RuntimeTracked (region : Region) : Prop :=
  region.hasRuntimeAttribute = region.hasRuntimeType

instance (region : Region) : Decidable region.RuntimeTracked :=
  inferInstanceAs (Decidable (_ = _))

theorem hasRuntimeType_of_conventional {region : Region}
    (conventional : region.isConventional = true) : region.hasRuntimeType = false := by
  have type := eq_of_beq conventional
  simp only [hasRuntimeType, type]
  decide

theorem hasRuntimeType_withType (region : Region) (memoryType : MemoryType) :
    (region.withType memoryType).hasRuntimeType = memoryType.isRuntime := by
  cases memoryType <;> rfl

theorem runtimeTracked_assign {region : Region} (memoryType : MemoryType)
    (plain : region.hasRuntimeAttribute = false) :
    (region.assign memoryType).RuntimeTracked := by
  have cleared : region.attributes &&& memoryRuntime = 0 := by
    simpa [hasRuntimeAttribute] using plain
  have both : (region.attributes ||| memoryRuntime) &&& memoryRuntime = memoryRuntime := by
    apply UInt64.toBitVec_inj.mp
    rw [UInt64.toBitVec_and, UInt64.toBitVec_or]
    ext index
    grind
  have nonzero : memoryRuntime ≠ 0 := by decide
  cases memoryType <;>
    simp [RuntimeTracked, hasRuntimeAttribute, hasRuntimeType, assign, cleared, both, nonzero,
      MemoryType.toUInt32]

/-! Cutting and joining keep the type and the attributes. -/

@[simp] theorem runtimeTracked_firstPages (pages : UInt64) (region : Region) :
    (region.firstPages pages).RuntimeTracked ↔ region.RuntimeTracked := Iff.rfl

@[simp] theorem runtimeTracked_dropPages (pages : UInt64) (region : Region) :
    (region.dropPages pages).RuntimeTracked ↔ region.RuntimeTracked := Iff.rfl

end Region

def AllTracked (regions : List Region) : Prop :=
  ∀ region ∈ regions, region.RuntimeTracked

instance (regions : List Region) : Decidable (AllTracked regions) :=
  inferInstanceAs (Decidable (∀ region ∈ regions, region.RuntimeTracked))

/-! ## Allocation -/

/-- A call of `allocate_pages` for runtime memory does not take a whole
descriptor. -/
def CutsRuntime (allocateType : AllocateType) (memoryType : MemoryType)
    (pageCount address : UInt64) (regions : List Region) : Prop :=
  ∀ region, regions.find? (Region.canServe allocateType pageCount address) = some region →
    memoryType.isRuntime = true → region.numberOfPages ≠ pageCount

namespace Region

theorem allTracked_place_iff {region : Region} (conventional : region.isConventional = true)
    (plain : region.hasRuntimeAttribute = false) (allocateType : AllocateType)
    (memoryType : MemoryType) (pageCount address : UInt64) (room : Nat) :
    AllTracked (region.place allocateType memoryType pageCount address room).2 ↔
      (memoryType.isRuntime = true → region.numberOfPages ≠ pageCount) := by
  have tracked : region.RuntimeTracked := by
    rw [RuntimeTracked, plain, hasRuntimeType_of_conventional conventional]
  have cutLow : ∀ pages, ((region.firstPages pages).assign memoryType).RuntimeTracked :=
    fun _ => runtimeTracked_assign memoryType plain
  have cutHigh : ∀ pages, ((region.dropPages pages).assign memoryType).RuntimeTracked :=
    fun _ => runtimeTracked_assign memoryType plain
  have cutMiddle : ∀ before pages,
      (((region.dropPages before).firstPages pages).assign memoryType).RuntimeTracked :=
    fun _ _ => runtimeTracked_assign memoryType plain
  rcases region.place_cases allocateType memoryType pageCount address room with
    ⟨identical, placed⟩ | ⟨identical, _, placed⟩ | ⟨identical, _, _, placed⟩
  · have whole : (region.withType memoryType).RuntimeTracked ↔ memoryType.isRuntime = false := by
      rw [RuntimeTracked, hasRuntimeType_withType]
      change region.hasRuntimeAttribute = _ ↔ _
      rw [plain]
      exact eq_comm
    rw [placed]
    simp [AllTracked, identical, whole]
  · have atStart : AllTracked (region.placeAtStart memoryType pageCount room).2 := by
      unfold placeAtStart
      split <;> simp [AllTracked, tracked, cutLow]
    rw [placed]
    exact iff_of_true atStart fun _ => identical
  · have inside : AllTracked (region.placeInside memoryType pageCount address room).2 := by
      unfold placeInside
      simp only
      split
      · simp [AllTracked, tracked]
      · split_ifs
        · split <;> simp [AllTracked, tracked, cutMiddle]
        · simp [AllTracked, tracked, cutHigh]
    rw [placed]
    exact iff_of_true inside fun _ => identical

end Region

theorem AllTracked.replace {before pieces after : List Region} {region : Region}
    (tracked : AllTracked (before ++ region :: after)) :
    AllTracked (before ++ pieces ++ after) ↔ AllTracked pieces := by
  constructor
  · intro all piece member
    exact all piece (by simp [member])
  · exact forall_mem_replaced tracked

variable {map : MemoryMap}

theorem allTracked_allocate_iff (tracked : AllTracked map.regions)
    (allocateType : AllocateType) (memoryType : MemoryType) (pageCount address : UInt64) :
    AllTracked (map.allocate allocateType memoryType pageCount address).2.regions ↔
      CutsRuntime allocateType memoryType pageCount address map.regions := by
  rw [CutsRuntime]
  rcases map.allocate_cases allocateType memoryType pageCount address with
    ⟨missing, unchanged⟩ | ⟨before, region, after, regionsEqual, found, serves, outcome⟩
  · simp [missing, unchanged, tracked]
  · rw [regionsEqual] at tracked
    have conventional : region.isConventional = true := by
      rw [Region.isConventional, Region.conventional_of_canServe serves]
      rfl
    have plain : region.hasRuntimeAttribute = false := by
      rw [tracked region (by simp)]
      exact Region.hasRuntimeType_of_conventional conventional
    rw [outcome, found]
    simp only [Option.some.injEq, forall_eq']
    rw [tracked.replace, Region.allTracked_place_iff conventional plain]

/-! ## Release -/

/-- If a call of `free_pages` frees runtime memory, then the descriptor before it
in the chain is conventional and ends at the address, so that the two merge. -/
def FreesIntoPredecessor (address : UInt64) (regions : List Region) : Prop :=
  ∀ region, regions.find? (fun region => region.physicalStart == address) = some region →
    region.hasRuntimeType = true →
    ∃ previous, (regions.takeWhile (·.physicalStart != address)).getLast? = some previous ∧
      previous.isConventional = true ∧
      previous.physicalStart + previous.numberOfPages * pageSize = address

namespace MemoryMap

variable {current : Region}

theorem allTracked_mergeFrom {rest : List Region}
    (tracked : AllTracked (current :: rest)) : AllTracked (mergeFrom current rest) := by
  induction rest generalizing current with
  | nil => exact tracked
  | cons next rest induction =>
    rw [mergeFrom]
    split_ifs
    · apply induction
      intro region member
      rcases List.mem_cons.mp member with equal | later
      · subst equal
        exact tracked current (by simp)
      · exact tracked region (by simp [later])
    · intro region member
      rcases List.mem_cons.mp member with equal | later
      · exact tracked region (by simp [equal])
      · exact induction (fun other member => tracked other (List.mem_cons_of_mem _ member))
          region later

theorem allTracked_merge {regions : List Region} (tracked : AllTracked regions) :
    AllTracked (merge regions) := by
  cases regions with
  | nil => exact tracked
  | cons first rest => exact allTracked_mergeFrom tracked

theorem untracked_mergeFrom (rest : List Region)
    (untracked : ¬current.RuntimeTracked) : ¬AllTracked (mergeFrom current rest) := by
  induction rest generalizing current with
  | nil => simpa [mergeFrom, AllTracked] using untracked
  | cons next rest induction =>
    rw [mergeFrom]
    split_ifs
    · exact induction untracked
    · intro tracked
      exact untracked (tracked current (by simp))

theorem absorbs_join {middle next : Region} (absorbs : current.absorbs middle = true) :
    (current.join middle).absorbs next = middle.absorbs next := by
  unfold Region.absorbs Region.isConventional at absorbs ⊢
  simp only [Bool.and_eq_true, beq_iff_eq] at absorbs
  rcases absorbs with ⟨⟨currentType, middleType⟩, contiguous⟩
  have sameEnd : current.physicalStart +
      (current.numberOfPages + middle.numberOfPages) * pageSize =
        middle.physicalStart + middle.numberOfPages * pageSize := by
    rw [contiguous, UInt64.add_mul, UInt64.add_assoc]
  simp only [Region.join, currentType, middleType, sameEnd]

theorem allTracked_mergeFrom_iff {freed : Region} {before after : List Region}
    (trackedBefore : AllTracked (current :: before)) (trackedAfter : AllTracked after)
    (untracked : ¬freed.RuntimeTracked) :
    AllTracked (mergeFrom current (before ++ freed :: after)) ↔
      (before.getLastD current).absorbs freed = true := by
  induction before generalizing current with
  | nil =>
    rw [List.nil_append, mergeFrom, List.getLastD_nil]
    split_ifs with absorbs
    · simp only [absorbs, iff_true]
      apply allTracked_mergeFrom
      intro region member
      rcases List.mem_cons.mp member with equal | later
      · subst equal
        exact trackedBefore current (by simp)
      · exact trackedAfter region later
    · refine iff_of_false ?_ absorbs
      intro tracked
      exact untracked_mergeFrom after untracked fun region member =>
        tracked region (List.mem_cons_of_mem _ member)
  | cons next before induction =>
    rw [List.cons_append, mergeFrom, List.getLastD_cons]
    split_ifs with absorbs
    · have joined : AllTracked (current.join next :: before) := by
        intro region member
        rcases List.mem_cons.mp member with equal | later
        · subst equal
          exact trackedBefore current (by simp)
        · exact trackedBefore region (by simp [later])
      rw [induction joined]
      cases before with
      | nil => simp [absorbs_join absorbs]
      | cons head tail => rw [List.getLastD_cons, List.getLastD_cons]
    · have rest : AllTracked (next :: before) :=
        fun region member => trackedBefore region (List.mem_cons_of_mem _ member)
      rw [← induction rest]
      have first := trackedBefore current (by simp)
      simp [AllTracked, first]

end MemoryMap

theorem allTracked_free_iff (tracked : AllTracked map.regions) (address : UInt64) :
    AllTracked (map.free address).2.regions ↔ FreesIntoPredecessor address map.regions := by
  rcases map.free_cases address with
    ⟨missing, unchanged⟩ | ⟨before, region, after, regionsEqual, found, earlier, start, freed⟩
  · rw [unchanged, FreesIntoPredecessor, missing]
    exact iff_of_true tracked nofun
  · have skipped : map.regions.takeWhile (·.physicalStart != address) = before := by
      rw [regionsEqual, List.takeWhile_append_of_pos (by simpa using earlier)]
      simp [start]
    rw [freed, FreesIntoPredecessor, found, skipped]
    simp only [Option.some.injEq, forall_eq']
    rw [regionsEqual] at tracked
    have trackedBefore : AllTracked before := fun other member =>
      tracked other (List.mem_append_left _ member)
    have trackedAfter : AllTracked after := fun other member =>
      tracked other (by simp [member])
    have trackedRegion := tracked region (by simp)
    have sameAttribute : (region.withType .conventionalMemory).hasRuntimeAttribute =
        region.hasRuntimeType := trackedRegion
    have conventionalType := region.hasRuntimeType_withType .conventionalMemory
    cases runtime : region.hasRuntimeType with
    | false =>
      refine iff_of_true ?_ nofun
      have freedTracked : AllTracked
          (before ++ [region.withType .conventionalMemory] ++ after) := by
        rw [tracked.replace]
        simp [AllTracked, Region.RuntimeTracked, sameAttribute, conventionalType, runtime,
          MemoryType.isRuntime]
      exact MemoryMap.allTracked_merge freedTracked
    | true =>
      have untracked : ¬(region.withType .conventionalMemory).RuntimeTracked := by
        simp [Region.RuntimeTracked, sameAttribute, conventionalType, runtime, MemoryType.isRuntime]
      rw [List.append_assoc, List.singleton_append]
      cases before with
      | nil =>
        refine iff_of_false (MemoryMap.untracked_mergeFrom after untracked) ?_
        simp
      | cons first before =>
        rw [List.cons_append, MemoryMap.merge,
          MemoryMap.allTracked_mergeFrom_iff trackedBefore trackedAfter untracked,
          List.getLast?_cons, ← List.getLastD_eq_getLast?]
        have conventional : (region.withType .conventionalMemory).isConventional = true := rfl
        have sameStart : (region.withType .conventionalMemory).physicalStart = address := start
        simp only [Region.absorbs, conventional, sameStart, Bool.and_true,
          Bool.and_eq_true, beq_iff_eq, Option.some.injEq, exists_eq_left',
          forall_const]
        exact and_congr_right fun _ => eq_comm

/-! ## Runs -/

structure InitialRegion.Plain (initial : InitialRegion) : Prop where
  attributes : initial.attributes &&& memoryRuntime = 0
  type : initial.memoryType.isRuntime = false

theorem InitialRegion.Plain.tracked {initial : InitialRegion} (plain : initial.Plain) :
    initial.region.RuntimeTracked := by
  have cleared : initial.region.hasRuntimeAttribute = false := by
    simp [Region.hasRuntimeAttribute, region, plain.attributes]
  rw [Region.RuntimeTracked, cleared, ← plain.type]
  exact (initial.region.hasRuntimeType_withType initial.memoryType).symm

def AllocatesOrFrees : Operation → Prop
  | .allocatePages .. | .freePages _ => True
  | _ => False

def RuntimeTrackedThroughout (initial : List InitialRegion)
    (operations : List Operation) : Prop :=
  ∃ added started,
    run Allocator.new (initial.map InitialRegion.operation) = .ok (added, started) ∧
    Machine.Always step (fun allocator => allocator.Reports AllTracked) started operations

theorem RuntimeTrackedThroughout.final {initial : List InitialRegion} {operations : List Operation}
    (throughout : RuntimeTrackedThroughout initial operations) :
    AllTracked ((MemoryMap.empty.run (initial.map InitialRegion.operation)).run
      operations).regions := by
  rcases throughout with ⟨added, started, ran, always⟩
  rcases always.final with ⟨_, final, ranFinal, tracked⟩
  have represents := represents_of_run Allocator.new_represents ran
  exact ((represents_of_run represents ranFinal).reports_iff _).mp tracked

def KeepsRuntimeTracked : Operation → List Region → Prop
  | .allocatePages allocateType memoryType pageCount address, regions =>
    CutsRuntime allocateType memoryType pageCount address regions
  | .freePages address, regions => FreesIntoPredecessor address regions
  | _, _ => True

def KeepsRuntimeTrackedThroughout (initial : List InitialRegion)
    (operations : List Operation) : Prop :=
  ∃ added started,
    run Allocator.new (initial.map InitialRegion.operation) = .ok (added, started) ∧
    Machine.EveryStep step
      (fun allocator operation => allocator.Reports (KeepsRuntimeTracked operation))
      started operations

theorem allTracked_step_iff (tracked : AllTracked map.regions)
    {operation : Operation} (call : AllocatesOrFrees operation) :
    AllTracked (map.step operation).2.regions ↔ KeepsRuntimeTracked operation map.regions := by
  cases operation with
  | allocatePages allocateType memoryType pageCount address =>
    exact allTracked_allocate_iff tracked allocateType memoryType pageCount address
  | freePages address => exact allTracked_free_iff tracked address
  | addInitialAllocation => cases call
  | updateVirtualAddresses => cases call

/-- The attribute tracks the type through a run exactly when no allocation of
runtime memory takes a whole descriptor and every free of runtime memory merges
it into the descriptor before it. -/
theorem runtimeTracked_iff (initial : List InitialRegion)
    (plain : ∀ region ∈ initial, region.Plain) (operations : List Operation)
    (calls : ∀ operation ∈ operations, AllocatesOrFrees operation) :
    RuntimeTrackedThroughout initial operations ↔
      KeepsRuntimeTrackedThroughout initial operations := by
  rcases run_represents Allocator.new_represents
      (initial.map InitialRegion.operation) with ⟨started, ran, represents⟩
  have tracked : AllTracked
      (MemoryMap.empty.run (initial.map InitialRegion.operation)).regions := by
    intro region member
    rw [MemoryMap.run_initial_regions] at member
    rcases List.mem_map.mp member with ⟨source, sourceMember, equal⟩
    subst equal
    exact (plain source
      ((InitialRegion.accepted_sublist initial _).subset sourceMember)).tracked
  have everyStep := Machine.always_iff_everyStep
    (fun allocator : Allocator => ∃ map, allocator.Represents map)
    (fun allocator => allocator.Reports AllTracked) (fun _ => AllocatesOrFrees)
    (fun allocator operation => allocator.Reports (KeepsRuntimeTracked operation))
    (fun allocator operation invariant holds call => by
      rcases invariant with ⟨current, represented⟩
      rcases step_represents represented operation with ⟨next, stepped, kept⟩
      refine ⟨_, next, stepped, ⟨_, kept⟩, ?_⟩
      rw [kept.reports_iff, represented.reports_iff]
      exact allTracked_step_iff ((represented.reports_iff _).mp holds) call)
    operations started ⟨_, represents⟩ ((represents.reports_iff _).mpr tracked)
    (Machine.everyStep_of_forall calls started)
  simp only [RuntimeTrackedThroughout, KeepsRuntimeTrackedThroughout, ran,
    Except.ok.injEq, Prod.mk.injEq]
  constructor
  · rintro ⟨_, _, ⟨rfl, rfl⟩, always⟩
    exact ⟨_, started, ⟨rfl, rfl⟩, everyStep.mp always⟩
  · rintro ⟨_, _, ⟨rfl, rfl⟩, every⟩
    exact ⟨_, started, ⟨rfl, rfl⟩, everyStep.mpr every⟩

theorem runtimeTracked_iff_one_region :
    RuntimeTrackedThroughout sixteenPages
        [.allocatePages .allocateAnyPages .runtimeServicesData 1 0] ↔
      KeepsRuntimeTrackedThroughout sixteenPages
        [.allocatePages .allocateAnyPages .runtimeServicesData 1 0] := by
  apply runtimeTracked_iff
  · intro region member
    rw [List.mem_singleton.mp member]
    exact ⟨by decide, rfl⟩
  · simp [AllocatesOrFrees]

/-- An exact fit leaves runtime memory without the attribute, and freed runtime
memory keeps it. -/
theorem not_runtimeTracked_exact_fit_and_free :
    ¬RuntimeTrackedThroughout sixteenPages
        [.allocatePages .allocateAnyPages .runtimeServicesData 0x10 0] ∧
      ¬RuntimeTrackedThroughout sixteenPages
        [.allocatePages .allocateAnyPages .runtimeServicesData 1 0,
          .freePages 0x200000] := by
  constructor
  · intro throughout
    exact absurd throughout.final (by decide)
  · intro throughout
    exact absurd throughout.final (by decide)

end HypervisorFirmware.Alloc
