import Mathlib.Tactic.SplitIfs
import HypervisorFirmware.Alloc.ChainIntegrity

/-! # The map key

An operating system passes the key of its last `get_memory_map` call to
`exit_boot_services`, so equal keys should mean equal maps. Every call but
`free_pages` either leaves the map alone or counts the key up. -/

namespace HypervisorFirmware.Alloc

open Efi

theorem Region.absorbs_congr_right {current first second : Region}
    (type : first.type = second.type) (start : first.physicalStart = second.physicalStart) :
    current.absorbs first = current.absorbs second := by
  simp only [absorbs, isConventional, type, start]

namespace MemoryMap

/-! ## Merging -/

theorem length_mergeFrom_le (current : Region) (rest : List Region) :
    (mergeFrom current rest).length ≤ rest.length + 1 := by
  induction rest generalizing current with
  | nil => simp [mergeFrom]
  | cons next rest induction =>
    rw [mergeFrom]
    split_ifs
    · have shorter := induction (current.join next)
      rw [List.length_cons]
      omega
    · have shorter := induction next
      simp only [List.length_cons]
      omega

def Separated (regions : List Region) : Prop :=
  regions.IsChain fun current next => current.absorbs next = false

theorem mergeFrom_of_length (current : Region) (rest : List Region)
    (kept : (mergeFrom current rest).length = rest.length + 1) :
    Separated (current :: rest) ∧ mergeFrom current rest = current :: rest := by
  induction rest generalizing current with
  | nil => simp [Separated, mergeFrom]
  | cons next rest induction =>
    rw [mergeFrom] at kept ⊢
    split_ifs at kept ⊢ with absorbs
    · have shorter := length_mergeFrom_le (current.join next) rest
      rw [kept, List.length_cons] at shorter
      omega
    · rw [List.length_cons, List.length_cons] at kept
      rcases induction next (by omega) with ⟨separated, unchanged⟩
      refine ⟨List.IsChain.cons_cons (by simpa using absorbs) separated, ?_⟩
      rw [unchanged]

theorem mergeFrom_of_separated (current : Region) (rest : List Region)
    (separated : Separated (current :: rest)) :
    mergeFrom current rest = current :: rest := by
  induction rest generalizing current with
  | nil => rfl
  | cons next rest induction =>
    rw [Separated, List.isChain_cons_cons] at separated
    rw [mergeFrom, separated.1, induction next separated.2]
    simp

theorem merge_of_separated {regions : List Region} (separated : Separated regions) :
    merge regions = regions := by
  cases regions with
  | nil => rfl
  | cons first rest => exact mergeFrom_of_separated first rest separated

theorem separated_of_merge_length {regions : List Region}
    (kept : (merge regions).length = regions.length) :
    Separated regions ∧ merge regions = regions := by
  cases regions with
  | nil => exact ⟨List.IsChain.nil, rfl⟩
  | cons first rest => exact mergeFrom_of_length first rest kept

/-! ## What a free changes -/

def FreeIdle (regions : List Region) (address : UInt64) : Prop :=
  ∀ region, regions.find? (fun region => region.physicalStart == address) = some region →
    region.isConventional = true ∧ Separated regions

theorem withType_conventional_iff (region : Region) :
    region.withType .conventionalMemory = region ↔ region.isConventional = true := by
  rcases region with ⟨type, physicalStart, numberOfPages, attributes⟩
  simp only [Region.withType, Region.isConventional, Region.mk.injEq, and_true, beq_iff_eq]
  exact eq_comm

theorem free_regions_eq_iff (map : MemoryMap) (address : UInt64) :
    (map.free address).2.regions = map.regions ↔ FreeIdle map.regions address := by
  rw [FreeIdle]
  rcases map.free_cases address with
    ⟨missing, freed⟩ | ⟨before, region, after, regionsEqual, found, _, _, freed⟩
  · simp [missing, freed]
  · rw [freed, found, regionsEqual]
    simp only [Option.some.injEq, forall_eq']
    constructor
    · intro unchanged
      have kept : (merge (before ++ [region.withType .conventionalMemory] ++ after)).length =
          (before ++ [region.withType .conventionalMemory] ++ after).length := by
        rw [unchanged]
        simp
      rcases separated_of_merge_length kept with ⟨separated, same⟩
      rw [same] at unchanged
      have sameRegion : region.withType .conventionalMemory = region := by
        simpa using unchanged
      rw [unchanged] at separated
      exact ⟨(withType_conventional_iff region).mp sameRegion, separated⟩
    · intro idle
      rw [(withType_conventional_iff region).mpr idle.1]
      simpa using merge_of_separated idle.2

theorem free_key (map : MemoryMap) (address : UInt64) : (map.free address).2.key = map.key := by
  rw [free]
  split <;> rfl

theorem step_key (map : MemoryMap) (operation : Operation)
    (idle : ∀ address, operation = .freePages address → FreeIdle map.regions address) :
    (map.step operation).2.key = map.key + 1 ∨ (map.step operation).2 = map := by
  cases operation with
  | addInitialAllocation memoryType pageCount address attributes =>
    left
    simp only [step, addRegion]
    cases map.room <;> rfl
  | allocatePages allocateType memoryType pageCount address =>
    simp only [step, allocate]
    cases map.regions.find? (Region.canServe allocateType pageCount address) with
    | none => exact .inr rfl
    | some region => exact .inl rfl
  | freePages address =>
    right
    have sameRegions := (map.free_regions_eq_iff address).mpr (idle address rfl)
    have sameKey := map.free_key address
    cases freed : (map.free address).2 with
    | mk regions key =>
      rw [freed] at sameRegions sameKey
      simp only [step, freed]
      rw [show regions = map.regions from sameRegions, show key = map.key from sameKey]
  | updateVirtualAddresses descriptors => exact .inr rfl

theorem run_key (map : MemoryMap) (operations : List Operation)
    (idle : ∀ before address after, operations = before ++ .freePages address :: after →
      FreeIdle (map.run before).regions address) :
    ∃ count ≤ operations.length, (map.run operations).key = map.key + UInt64.ofNat count ∧
      (count = 0 → map.run operations = map) := by
  induction operations generalizing map with
  | nil => exact ⟨0, Nat.le_refl _, by simp, fun _ => rfl⟩
  | cons operation rest induction =>
    have here := map.step_key operation fun address isFree =>
      idle [] address rest (by rw [isFree]; rfl)
    rcases induction (map.step operation).2 fun before address after split =>
        idle (operation :: before) address after (by rw [split]; rfl) with
      ⟨count, bounded, key, unchanged⟩
    rw [run_cons, List.length_cons]
    rcases here with counted | same
    · refine ⟨count + 1, by omega, ?_, nofun⟩
      rw [key, counted, UInt64.ofNat_add, UInt64.add_comm (UInt64.ofNat count), ← UInt64.add_assoc]
      rfl
    · rw [same] at key unchanged ⊢
      exact ⟨count, by omega, key, unchanged⟩

end MemoryMap

/-! ## Two points of a run -/

/-- Whenever the key is the same at two points of the run, so is the reported
list of types, start addresses, page counts and attributes. -/
def KeyIdentifiesMap (operations : List Operation) : Prop :=
  ∀ first second third, operations = first ++ second ++ third →
    ∃ responses earlier responses' later earlierMap laterMap,
      run Allocator.new first = .ok (responses, earlier) ∧
      run earlier second = .ok (responses', later) ∧
      earlier.reportedMap = .ok earlierMap ∧ later.reportedMap = .ok laterMap ∧
      (earlier.getMapKey = later.getMapKey →
        earlierMap.map MemoryDescriptor.toRegion = laterMap.map MemoryDescriptor.toRegion)

/-- A call of `free_pages` finds no descriptor at the address, or one that is
conventional already, in a map without neighbours to merge. -/
def FreeChangesNothing : Operation → List Region → Prop
  | .freePages address, regions => MemoryMap.FreeIdle regions address
  | _, _ => True

theorem keyIdentifiesMap_iff (operations : List Operation) :
    KeyIdentifiesMap operations ↔
      ∀ first second third, operations = first ++ second ++ third →
        (MemoryMap.empty.run first).key = (MemoryMap.empty.run (first ++ second)).key →
        (MemoryMap.empty.run first).regions = (MemoryMap.empty.run (first ++ second)).regions := by
  apply forall_congr'
  intro first
  apply forall_congr'
  intro second
  apply forall_congr'
  intro third
  apply imp_congr_right
  intro _
  rcases run_represents Allocator.new_represents first with
    ⟨earlier, ranFirst, earlierRepresents⟩
  rcases run_represents earlierRepresents second with
    ⟨later, ranSecond, laterRepresents⟩
  rcases earlierRepresents.reportedMap with ⟨earlierMap, earlierReported, earlierRegions⟩
  rcases laterRepresents.reportedMap with ⟨laterMap, laterReported, laterRegions⟩
  rw [MemoryMap.run_append, ← earlierRegions, ← laterRegions, ← earlierRepresents.key_eq,
    ← laterRepresents.key_eq]
  constructor
  · rintro ⟨_, _, _, _, _, _, ran, ran', reported, reported', identifies⟩
    rw [ranFirst] at ran
    cases ran
    rw [ranSecond] at ran'
    cases ran'
    rw [earlierReported] at reported
    cases reported
    rw [laterReported] at reported'
    cases reported'
    exact identifies
  · intro identifies
    exact ⟨_, earlier, _, later, earlierMap, laterMap, ranFirst, ranSecond,
      earlierReported, laterReported, identifies⟩

def FreesChangeNothing (operations : List Operation) : Prop :=
  Machine.EveryStep step
    (fun allocator operation => allocator.Reports (FreeChangesNothing operation))
    Allocator.new operations

theorem freesChangeNothing_iff (operations : List Operation) :
    FreesChangeNothing operations ↔
      ∀ before address after, operations = before ++ .freePages address :: after →
        MemoryMap.FreeIdle (MemoryMap.empty.run before).regions address := by
  rw [FreesChangeNothing, everyStep_reports_iff Allocator.new_represents]
  constructor
  · intro every before address after split
    exact every before (.freePages address) after split
  · intro every before operation after split
    cases operation with
    | freePages address => exact every before address after split
    | addInitialAllocation => trivial
    | allocatePages => trivial
    | updateVirtualAddresses => trivial

/-- The key identifies the map in exactly the runs in which no `free_pages` call
changes the map. The key has 64 bits, so the runs are shorter than `2^64` calls. -/
theorem keyIdentifiesMap_iff_frees_change_nothing (operations : List Operation)
    (short : operations.length < 2 ^ 64) :
    KeyIdentifiesMap operations ↔ FreesChangeNothing operations := by
  rw [keyIdentifiesMap_iff, freesChangeNothing_iff]
  constructor
  · intro identifies before address after split
    rw [← MemoryMap.free_regions_eq_iff]
    have same := identifies before [.freePages address] after (by simp [split])
    rw [MemoryMap.run_append] at same
    apply (same _).symm
    exact ((MemoryMap.empty.run before).free_key address).symm
  · intro idle first second third split sameKey
    rw [MemoryMap.run_append] at sameKey ⊢
    have idleSecond : ∀ before address after,
        second = before ++ .freePages address :: after →
        MemoryMap.FreeIdle ((MemoryMap.empty.run first).run before).regions address := by
      intro before address after splitSecond
      rw [← MemoryMap.run_append]
      exact idle (first ++ before) address (after ++ third) (by simp [split, splitSecond])
    rcases MemoryMap.run_key _ second idleSecond with ⟨count, bounded, key, unchanged⟩
    have length : second.length ≤ operations.length := by
      rw [split]
      simp
      omega
    have countZero : count = 0 := by
      rw [key] at sameKey
      have zero : UInt64.ofNat count = 0 := by
        simpa using sameKey.symm
      have modulo := congrArg UInt64.toNat zero
      simp only [UInt64.toNat_ofNat', UInt64.toNat_zero] at modulo
      omega
    rw [unchanged countZero]

theorem keyIdentifiesMap_iff_frees_change_nothing_two_allocations :
    KeyIdentifiesMap
        [.addInitialAllocation .conventionalMemory 0x10 0x200000 memoryWb,
          .allocatePages .allocateAnyPages .loaderData 1 0, .freePages 0x300000] ↔
      FreesChangeNothing
        [.addInitialAllocation .conventionalMemory 0x10 0x200000 memoryWb,
          .allocatePages .allocateAnyPages .loaderData 1 0, .freePages 0x300000] :=
  keyIdentifiesMap_iff_frees_change_nothing _ (by simp)

/-- The key before the free of a live allocation and the key after it are both
two, while the descriptors have become one. -/
theorem not_keyIdentifiesMap_of_free :
    ¬KeyIdentifiesMap
      [.addInitialAllocation .conventionalMemory 0x10 0x200000 memoryWb,
        .allocatePages .allocateAnyPages .loaderData 1 0, .freePages 0x200000] := by
  rw [keyIdentifiesMap_iff]
  intro identifies
  have same := identifies
    [.addInitialAllocation .conventionalMemory 0x10 0x200000 memoryWb,
      .allocatePages .allocateAnyPages .loaderData 1 0]
    [.freePages 0x200000] [] rfl (by decide)
  exact absurd same (by decide)

end HypervisorFirmware.Alloc
