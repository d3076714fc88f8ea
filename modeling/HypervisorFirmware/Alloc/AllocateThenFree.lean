import HypervisorFirmware.Alloc.FailedAllocation
import HypervisorFirmware.Alloc.MapKey
import HypervisorFirmware.Alloc.Ownership
import HypervisorFirmware.Alloc.WrappedRequests

/-! # Allocating and freeing again

An allocation cuts a free region into pieces, and the free of the same address joins
these pieces again. On page-aligned memory the map is then what it was, up to the
attributes. -/

namespace HypervisorFirmware.Alloc

open Efi

/-! ## Pieces that join -/

namespace Region

def shape (region : Region) : UInt32 × UInt64 × UInt64 :=
  (region.type, region.physicalStart, region.numberOfPages)

def Joins : Region → List Region → Region → Prop
  | current, [], whole => current = whole
  | current, next :: rest, whole =>
    current.absorbs next = true ∧ Joins (current.join next) rest whole

theorem absorbs_congr_left {first second next : Region} (same : first.shape = second.shape) :
    first.absorbs next = second.absorbs next := by
  simp only [shape, Prod.mk.injEq] at same
  simp only [absorbs, isConventional, same.1, same.2.1, same.2.2]

end Region

namespace MemoryMap

theorem mergeFrom_of_joins {current whole : Region} {pieces : List Region}
    (joins : current.Joins pieces whole) (after : List Region) :
    mergeFrom current (pieces ++ after) = mergeFrom whole after := by
  induction pieces generalizing current with
  | nil =>
    have equal : current = whole := joins
    rw [equal]
    rfl
  | cons next rest induction =>
    rw [List.cons_append, mergeFrom, if_pos joins.1]
    exact induction joins.2

variable {before : List Region}

theorem mergeFrom_of_separated_before {current next : Region} {rest : List Region}
    (separated : Separated (current :: before ++ [next])) :
    mergeFrom current (before ++ next :: rest) = current :: before ++ mergeFrom next rest := by
  induction before generalizing current with
  | nil =>
    have apart : current.absorbs next = false := by simpa [Separated] using separated
    simp [mergeFrom, apart]
  | cons head before induction =>
    rw [List.cons_append, List.cons_append, Separated, List.isChain_cons_cons] at separated
    rw [List.cons_append, mergeFrom, separated.1, induction separated.2]
    simp

theorem merge_of_joins {pieces after : List Region} {region first whole : Region}
    (separated : Separated (before ++ region :: after))
    (type : first.type = region.type) (start : first.physicalStart = region.physicalStart)
    (joins : first.Joins pieces whole) (same : whole.shape = region.shape) :
    merge (before ++ first :: pieces ++ after) = before ++ whole :: after := by
  have rest : mergeFrom first (pieces ++ after) = whole :: after := by
    rw [mergeFrom_of_joins joins]
    apply mergeFrom_of_separated
    have behind : Separated (region :: after) := separated.right_of_append
    cases after with
    | nil => exact List.IsChain.singleton _
    | cons next after =>
      rw [Separated, List.isChain_cons_cons] at behind ⊢
      rw [Region.absorbs_congr_left same]
      exact behind
  cases before with
  | nil => exact rest
  | cons head before =>
    have ahead : Separated (head :: before ++ [first]) := by
      rw [Separated, List.isChain_append] at separated ⊢
      refine ⟨separated.1, List.IsChain.singleton _, ?_⟩
      intro last isLast next isNext
      have equal : first = next := by simpa using isNext
      rw [← equal, Region.absorbs_congr_right type start]
      exact separated.2.2 last isLast region rfl
    rw [List.cons_append, List.cons_append, merge, List.append_assoc, List.cons_append,
      mergeFrom_of_separated_before ahead, rest]

end MemoryMap

/-! ## The pieces of an allocation -/

namespace Region

structure Rejoins (region : Region) (placed : (Status × UInt64) × List Region) : Prop where
  above : region.bottom ≤ placed.1.2.toNat
  pieces : ∃ lows taken highs first rest whole, placed.2 = lows ++ taken :: highs ∧
    taken.physicalStart = placed.1.2 ∧
    (∀ low ∈ lows, low.physicalStart ≠ placed.1.2) ∧
    lows ++ taken.withType .conventionalMemory :: highs = first :: rest ∧
    first.type = region.type ∧ first.physicalStart = region.physicalStart ∧
    first.Joins rest whole ∧ whole.shape = region.shape

theorem add_sub_pages (pages count : UInt64) : count + (pages - count) = pages := by
  rw [UInt64.add_comm, UInt64.sub_add_cancel]

theorem absorbs_dropPages {first region rest : Region} {pages : UInt64}
    (conventional : region.type = MemoryType.conventionalMemory.toUInt32)
    (same : first.shape = (region.firstPages pages).shape)
    (type : rest.type = MemoryType.conventionalMemory.toUInt32)
    (start : rest.physicalStart = (region.dropPages pages).physicalStart) :
    first.absorbs rest = true := by
  rw [absorbs_congr_left same]
  simp [absorbs, isConventional, firstPages, dropPages, conventional, type, start, UInt64.mul_comm]

theorem shape_join_dropPages {first region rest : Region} {pages : UInt64}
    (same : first.shape = (region.firstPages pages).shape)
    (restPages : rest.numberOfPages = region.numberOfPages - pages) :
    (first.join rest).shape = region.shape := by
  simp only [shape, Prod.mk.injEq] at same ⊢
  refine ⟨same.1, same.2.1, ?_⟩
  change first.numberOfPages + rest.numberOfPages = region.numberOfPages
  rw [same.2.2, restPages]
  exact add_sub_pages _ _

theorem placeAtStart_rejoins {region : Region}
    (conventional : region.type = MemoryType.conventionalMemory.toUInt32)
    (memoryType : MemoryType) (pageCount : UInt64) {room : Nat}
    (success : (region.placeAtStart memoryType pageCount room).1.1 = .success) :
    region.Rejoins (region.placeAtStart memoryType pageCount room) := by
  cases room with
  | zero => cases success
  | succ room =>
    have same : (((region.firstPages pageCount).assign memoryType).withType
        .conventionalMemory).shape = (region.firstPages pageCount).shape := by
      simp [shape, withType, assign, firstPages, conventional]
    refine ⟨Nat.le_refl _, [], _, [region.dropPages pageCount], _, _, _, rfl, rfl, ?_, rfl,
      conventional.symm, rfl, ⟨?_, rfl⟩, ?_⟩
    · simp
    · exact absorbs_dropPages conventional same conventional rfl
    · exact shape_join_dropPages same rfl

theorem dropPages_dropPages (region : Region) (pages more : UInt64) :
    (region.dropPages pages).dropPages more = region.dropPages (pages + more) := by
  have start : region.physicalStart + pageSize * pages + pageSize * more =
      region.physicalStart + pageSize * (pages + more) := by
    rw [UInt64.mul_add, UInt64.add_assoc]
  have count : region.numberOfPages - pages - more = region.numberOfPages - (pages + more) := by
    rw [UInt64.sub_eq_add_neg, UInt64.sub_eq_add_neg, UInt64.sub_eq_add_neg, UInt64.neg_add,
      UInt64.add_assoc, UInt64.sub_eq_add_neg (-pages)]
  simp only [dropPages, start, count]

variable {address : UInt64}

theorem dropPages_start {region : Region}
    (lower : region.bottom ≤ address.toNat) (regionAligned : 4096 ∣ region.bottom)
    (aligned : 4096 ∣ address.toNat) :
    (region.dropPages ((address - region.physicalStart) / pageSize)).physicalStart =
      address := by
  have offset : (address - region.physicalStart).toNat = address.toNat - region.bottom :=
    UInt64.toNat_sub_of_le _ _ (UInt64.le_iff_toNat_le.mpr lower)
  have bound := address.toNat_lt
  apply UInt64.toNat_inj.mp
  simp only [dropPages, UInt64.toNat_add, UInt64.toNat_mul, UInt64.toNat_div, pageSize_toNat,
    offset]
  change (region.bottom + _) % _ = _
  omega

theorem placeInside_rejoins {region : Region}
    (conventional : region.type = MemoryType.conventionalMemory.toUInt32)
    (lower : region.bottom ≤ address.toNat) (different : region.physicalStart ≠ address)
    (regionAligned : 4096 ∣ region.bottom) (aligned : 4096 ∣ address.toNat)
    (memoryType : MemoryType) (pageCount : UInt64) {room : Nat}
    (success : (region.placeInside memoryType pageCount address room).1.1 = .success) :
    region.Rejoins (region.placeInside memoryType pageCount address room) := by
  have start := dropPages_start lower regionAligned aligned
  unfold placeInside at success ⊢
  generalize (address - region.physicalStart) / pageSize = pages at start success ⊢
  have lowStart : ∀ low ∈ [region.firstPages pages], low.physicalStart ≠ address := by
    intro low member
    rw [List.mem_singleton.mp member]
    exact different
  cases room with
  | zero => cases success
  | succ room =>
    simp only [start] at success ⊢
    by_cases bigger : (region.dropPages pages).numberOfPages > pageCount
    · simp only [bigger, if_true] at success ⊢
      cases room with
      | zero => cases success
      | succ room =>
        refine ⟨lower, [region.firstPages pages], _, [_], _, _, _, rfl, start, lowStart,
          rfl, rfl, rfl, ⟨?_, ?_, rfl⟩, ?_⟩
        · exact absorbs_dropPages conventional rfl rfl rfl
        · rw [dropPages_dropPages]
          exact absorbs_dropPages conventional rfl conventional rfl
        · rw [dropPages_dropPages]
          exact shape_join_dropPages rfl rfl
    · simp only [bigger, if_false] at success ⊢
      refine ⟨lower, [region.firstPages pages], _, [], _, _, _, rfl, start, lowStart, rfl,
        rfl, rfl, ⟨?_, rfl⟩, ?_⟩
      · exact absorbs_dropPages conventional rfl rfl rfl
      · exact shape_join_dropPages rfl rfl

theorem place_rejoins {region : Region} {allocateType : AllocateType} {pageCount : UInt64}
    (serves : region.canServe allocateType pageCount address = true)
    (regionAligned : 4096 ∣ region.bottom)
    (aligned : allocateType = .allocateAddress → 4096 ∣ address.toNat)
    (memoryType : MemoryType) {room : Nat}
    (success : (region.place allocateType memoryType pageCount address room).1.1 = .success) :
    region.Rejoins (region.place allocateType memoryType pageCount address room) := by
  have conventional := conventional_of_canServe serves
  rcases region.place_cases allocateType memoryType pageCount address room with
    ⟨_, placed⟩ | ⟨_, _, placed⟩ | ⟨_, isAddress, different, placed⟩
  · rw [placed]
    refine ⟨Nat.le_refl _, [], _, [], _, _, _, rfl, rfl, ?_, rfl, conventional.symm, rfl, rfl, ?_⟩
    · simp
    · simp [shape, withType, conventional]
  · rw [placed] at success ⊢
    exact placeAtStart_rejoins conventional memoryType pageCount success
  · have lower : region.bottom ≤ address.toNat := by
      simp only [isAddress, canServe, Bool.and_eq_true, decide_eq_true_eq] at serves
      exact UInt64.le_iff_toNat_le.mp serves.2.1
    rw [placed] at success ⊢
    exact placeInside_rejoins conventional lower different regionAligned (aligned isAddress)
      memoryType pageCount success

end Region

/-! ## Memory in whole pages -/

structure Region.OnPages (region : Region) : Prop where
  notEmpty : 0 < region.numberOfPages.toNat
  aligned : 4096 ∣ region.bottom

namespace Region

theorem onPages_firstPages {region : Region} (onPages : region.OnPages) {pages : UInt64}
    (positive : 0 < pages.toNat) : (region.firstPages pages).OnPages :=
  ⟨positive, onPages.aligned⟩

theorem onPages_assign {region : Region} (onPages : region.OnPages) (memoryType : MemoryType) :
    (region.assign memoryType).OnPages :=
  ⟨onPages.notEmpty, onPages.aligned⟩

theorem onPages_dropPages {region : Region} (onPages : region.OnPages)
    (below : region.top < 2 ^ 64) {pages : UInt64}
    (fewer : pages.toNat < region.numberOfPages.toNat) : (region.dropPages pages).OnPages := by
  have aligned := onPages.aligned
  constructor
  · rw [numberOfPages_dropPages (Nat.le_of_lt fewer)]
    omega
  · rw [bottom_dropPages below (Nat.le_of_lt fewer)]
    omega

variable {memoryType : MemoryType} {pageCount : UInt64} {piece : Region}

variable {region : Region} (onPages : region.OnPages) (below : region.top < 2 ^ 64)

include onPages below

theorem placeAtStart_onPages (positive : 0 < pageCount.toNat)
    (fewer : pageCount.toNat < region.numberOfPages.toNat) {room : Nat}
    (member : piece ∈ (region.placeAtStart memoryType pageCount room).2) : piece.OnPages := by
  cases room with
  | zero =>
    rw [List.mem_singleton.mp member]
    exact onPages
  | succ room =>
    rcases List.mem_cons.mp member with taken | rest
    · rw [taken]
      exact onPages_assign (onPages_firstPages onPages positive) memoryType
    · rw [List.mem_singleton.mp rest]
      exact onPages_dropPages onPages below fewer

theorem placeInside_onPages {address : UInt64} (positive : 0 < pageCount.toNat)
    (fits : region.Fits .allocateAddress pageCount address)
    (different : region.physicalStart ≠ address) (aligned : 4096 ∣ address.toNat) {room : Nat}
    (member : piece ∈ (region.placeInside memoryType pageCount address room).2) :
    piece.OnPages := by
  have lower := fits.lower rfl
  have start := dropPages_start lower onPages.aligned aligned
  have fewer := fits.pages_before
  cases room with
  | zero =>
    rw [List.mem_singleton.mp member]
    exact onPages
  | succ room =>
    rw [placeInside_succ] at member
    generalize (address - region.physicalStart) / pageSize = pages at start fewer member
    -- Some page lies before the address, since it is not the start of the region.
    have some : 0 < pages.toNat := by
      apply toNat_pos
      intro zero
      apply different
      rw [← start, zero]
      simp [dropPages]
    have lowOn := onPages_firstPages onPages some
    have highOn : (region.dropPages pages).OnPages := onPages_dropPages onPages below (by omega)
    by_cases bigger : (region.dropPages pages).numberOfPages > pageCount
    · have highBelow : (region.dropPages pages).top < 2 ^ 64 := by
        rw [top_dropPages below (by omega)]
        exact below
      rw [if_pos bigger] at member
      rcases List.mem_cons.mp member with low | rest
      · exact low ▸ lowOn
      · exact placeAtStart_onPages highOn highBelow positive (UInt64.lt_iff_toNat_lt.mp bigger) rest
    · rw [if_neg bigger] at member
      rcases List.mem_cons.mp member with low | taken
      · exact low ▸ lowOn
      · rw [List.mem_singleton.mp taken]
        exact onPages_assign highOn memoryType

theorem place_onPages {allocateType : AllocateType} {address : UInt64}
    (positive : 0 < pageCount.toNat) (fits : region.Fits allocateType pageCount address)
    (aligned : allocateType = .allocateAddress → 4096 ∣ address.toNat) {room : Nat}
    (member : piece ∈ (region.place allocateType memoryType pageCount address room).2) :
    piece.OnPages := by
  rcases region.place_cases allocateType memoryType pageCount address room with
    ⟨_, placed⟩ | ⟨notIdentical, _, placed⟩ | ⟨_, isAddress, different, placed⟩
  · rw [placed] at member
    rw [List.mem_singleton.mp member]
    exact ⟨onPages.notEmpty, onPages.aligned⟩
  · have fewer : pageCount.toNat < region.numberOfPages.toNat := by
      apply Nat.lt_of_le_of_ne fits.pages
      intro equal
      exact notIdentical (UInt64.toNat_inj.mp equal.symm)
    rw [placed] at member
    exact placeAtStart_onPages onPages below positive fewer member
  · rw [placed] at member
    exact placeInside_onPages onPages below positive (isAddress ▸ fits) different
      (aligned isAddress) member

end Region

structure Paged (regions : List Region) : Prop where
  laid : Laid regions
  onPages : ∀ region ∈ regions, region.OnPages

variable {address pageCount : UInt64} {allocateType : AllocateType} {map : MemoryMap}

theorem Paged.allocate (paged : Paged map.regions)
    (bounded : Bounded allocateType pageCount address) (positive : 0 < pageCount.toNat)
    (aligned : allocateType = .allocateAddress → 4096 ∣ address.toNat)
    (memoryType : MemoryType) :
    Paged (map.allocate allocateType memoryType pageCount address).2.regions := by
  refine ⟨(paged.laid.allocate bounded memoryType).laid, ?_⟩
  rcases map.allocate_cases allocateType memoryType pageCount address with
    ⟨_, unchanged⟩ | ⟨before, region, after, regionsEqual, _, serves, outcome⟩
  · rw [unchanged]
    exact paged.onPages
  · have member : region ∈ map.regions := by simp [regionsEqual]
    have below := paged.laid.below region member
    have fits := Region.fits_of_canServe below bounded serves
    rw [outcome]
    exact forall_mem_replaced (regionsEqual ▸ paged.onPages) fun piece here =>
      Region.place_onPages (paged.onPages region member) below positive fits aligned here

theorem Paged.mergeFrom {current : Region} {rest : List Region}
    (paged : Paged (current :: rest)) : Paged (MemoryMap.mergeFrom current rest) := by
  refine ⟨(paged.laid.mergeFrom (by decide)).1, ?_⟩
  induction rest generalizing current with
  | nil => exact paged.onPages
  | cons next rest induction =>
    rw [MemoryMap.mergeFrom]
    split_ifs with absorbs
    · -- The joined region ends where the second one does.
      have joinedTop := (paged.laid.join_top (by decide) absorbs).2.1
      have adjacent := (paged.laid.join_top (by decide) absorbs).1
      have currentOn := paged.onPages current (by simp)
      have nextOn := (paged.onPages next (by simp)).notEmpty
      have joinedOn : (current.join next).OnPages := by
        refine ⟨?_, currentOn.aligned⟩
        have sameBottom : (current.join next).bottom = current.bottom := rfl
        unfold Region.top at joinedTop adjacent
        omega
      apply induction
      refine ⟨(paged.laid.join (by decide) absorbs).1, ?_⟩
      intro region member
      rcases List.mem_cons.mp member with equal | later
      · exact equal ▸ joinedOn
      · exact paged.onPages region (by simp [later])
    · intro region member
      rcases List.mem_cons.mp member with equal | later
      · exact equal ▸ paged.onPages current (by simp)
      · exact induction ⟨paged.laid.tail, fun other otherMember =>
          paged.onPages other (List.mem_cons_of_mem _ otherMember)⟩ region later

theorem Paged.free (paged : Paged map.regions) (address : UInt64) :
    Paged (map.free address).2.regions := by
  rcases map.free_cases address with
    ⟨_, unchanged⟩ | ⟨before, region, after, regionsEqual, _, _, _, freed⟩
  · rw [unchanged]
    exact paged
  · have tiles : Span.Tiles region.bottom region.top
        ([region.withType .conventionalMemory].map Region.span) := ⟨rfl, rfl⟩
    have laid : Laid (before ++ region :: after) := regionsEqual ▸ paged.laid
    have relabelled : Paged (before ++ [region.withType .conventionalMemory] ++ after) := by
      refine ⟨laid.replace tiles, forall_mem_replaced (regionsEqual ▸ paged.onPages) ?_⟩
      have onPages := paged.onPages region (by simp [regionsEqual])
      exact List.forall_mem_singleton.mpr ⟨onPages.notEmpty, onPages.aligned⟩
    rw [freed]
    cases before with
    | nil => exact relabelled.mergeFrom
    | cons first before => exact relabelled.mergeFrom

/-! ## Runs -/

theorem Paged.initial {initial : List InitialRegion} (inOrder : InitialRegion.InOrder initial)
    (onPages : ∀ region ∈ initial, region.pageCount ≠ 0 ∧ 4096 ∣ region.address.toNat) :
    Paged (MemoryMap.empty.run (initial.map InitialRegion.operation)).regions := by
  refine ⟨inOrder.laid_run, ?_⟩
  rw [MemoryMap.run_initial_regions]
  intro region member
  rcases List.mem_map.mp member with ⟨source, accepted, equal⟩
  rcases onPages source ((InitialRegion.accepted_sublist initial _).subset accepted) with
    ⟨notEmpty, aligned⟩
  rw [← equal]
  exact ⟨toNat_pos notEmpty, aligned⟩

/-- A call of `allocate_pages` for at least one page, where an `AllocateAddress` request
names page-aligned bytes below `2^64`; or a call of `free_pages` or
`update_virtual_addresses`. -/
def PageRequest : Operation → Prop
  | .allocatePages allocateType _ pageCount address =>
    pageCount ≠ 0 ∧ (allocateType = .allocateAddress →
      4096 ∣ address.toNat ∧ address.toNat + 4096 * pageCount.toNat < 2 ^ 64)
  | .freePages _ | .updateVirtualAddresses _ => True
  | .addInitialAllocation .. => False

theorem Paged.step (paged : Paged map.regions) {operation : Operation}
    (request : PageRequest operation) : Paged (map.step operation).2.regions := by
  cases operation with
  | addInitialAllocation => cases request
  | allocatePages allocateType memoryType pageCount address =>
    exact paged.allocate (fun isAddress => (request.2 isAddress).2) (toNat_pos request.1)
      (fun isAddress => (request.2 isAddress).1) memoryType
  | freePages address => exact paged.free address
  | updateVirtualAddresses descriptors => exact paged

theorem Paged.run (paged : Paged map.regions)
    {operations : List Operation} (requests : ∀ operation ∈ operations, PageRequest operation) :
    Paged (map.run operations).regions := by
  induction operations generalizing map with
  | nil => exact paged
  | cons operation rest induction =>
    apply induction (paged.step (requests operation List.mem_cons_self))
    intro later member
    exact requests later (List.mem_cons_of_mem _ member)

/-! ## The way back -/

theorem Paged.start_lt {before after : List Region} {region other : Region}
    (paged : Paged (before ++ region :: after)) (member : other ∈ before) :
    other.bottom < region.bottom := by
  have notEmpty := (paged.onPages other (by simp [member])).notEmpty
  have ascending := paged.laid.ascending
  rw [Span.Ascending, List.map_append, List.pairwise_append] at ascending
  have apart : other.top ≤ region.bottom :=
    ascending.2.2 other.span (List.mem_map_of_mem member) region.span (by simp)
  unfold Region.top at apart
  omega

theorem MemoryMap.free_allocated (paged : Paged map.regions) (separated : Separated map.regions)
    (aligned : allocateType = .allocateAddress → 4096 ∣ address.toNat)
    (memoryType : MemoryType)
    (success : (map.allocate allocateType memoryType pageCount address).1.1 = .success) :
    ∃ freed, (map.allocate allocateType memoryType pageCount address).2.free
        (map.allocate allocateType memoryType pageCount address).1.2 = (.success, freed) ∧
      freed.regions.map Region.shape = map.regions.map Region.shape := by
  rcases map.allocate_cases allocateType memoryType pageCount address with
    ⟨_, unchanged⟩ | ⟨before, region, after, regionsEqual, _, serves, outcome⟩
  · rw [unchanged] at success
    cases success
  · rw [outcome] at success ⊢
    rw [regionsEqual] at paged separated ⊢
    have regionOn := paged.onPages region (by simp)
    rcases Region.place_rejoins serves regionOn.aligned aligned memoryType success with
      ⟨above, lows, taken, highs, first, rest, whole, pieces, starts, lowStarts, relabelled,
        type, start, joins, same⟩
    generalize region.place allocateType memoryType pageCount address map.room = placed
      at above pieces starts lowStarts ⊢
    -- No region before the taken one starts at the returned address.
    have earlier : ∀ other ∈ before ++ lows, other.physicalStart ≠ placed.1.2 := by
      intro other member equal
      rcases List.mem_append.mp member with ahead | low
      · have lower := paged.start_lt ahead
        have atStart : other.bottom = placed.1.2.toNat := congrArg UInt64.toNat equal
        omega
      · exact lowStarts other low equal
    have split : before ++ placed.2 ++ after = before ++ lows ++ taken :: (highs ++ after) := by
      simp [pieces]
    have joined : before ++ lows ++ [taken.withType .conventionalMemory] ++ (highs ++ after) =
        before ++ first :: rest ++ after := by
      simp [← relabelled]
    refine ⟨_, free_split split earlier starts, ?_⟩
    simp only [joined, merge_of_joins separated type start joins same, List.map_append,
      List.map_cons, same]

/-- The call returns, and if it succeeds, freeing the returned address succeeds and leaves
the types, starts and sizes that were reported before the call. -/
def RestoresMap (allocator : Allocator) (allocateType : AllocateType)
    (memoryType : MemoryType) (pageCount address : UInt64) : Prop :=
  ∃ status assigned next,
    allocator.allocatePages allocateType memoryType pageCount address =
      .ok ((status, assigned), next) ∧
    (status = .success → ∃ freed, next.freePages assigned = .ok (.success, freed) ∧
      allocator.Reports fun regions => freed.Reports fun regions' =>
        regions'.map Region.shape = regions.map Region.shape)

theorem restoresMap_of_paged {allocator : Allocator}
    (represents : allocator.Represents map) (paged : Paged map.regions)
    (separated : MemoryMap.Separated map.regions)
    (aligned : allocateType = .allocateAddress → 4096 ∣ address.toNat)
    (memoryType : MemoryType) :
    RestoresMap allocator allocateType memoryType pageCount address := by
  rcases Allocator.allocatePages_represents represents allocateType memoryType pageCount
      address with ⟨next, returned, kept⟩
  refine ⟨_, _, next, returned, ?_⟩
  intro success
  rcases MemoryMap.free_allocated paged separated aligned memoryType success with
    ⟨freedMap, freed, same⟩
  rcases Allocator.freePages_represents kept
      (map.allocate allocateType memoryType pageCount address).1.2 with
    ⟨final, freedReturned, finalRepresents⟩
  rw [freed] at freedReturned finalRepresents
  refine ⟨final, freedReturned, ?_⟩
  rw [represents.reports_iff, finalRepresents.reports_iff]
  exact same

/-- On page-aligned memory, in every state without free neighbours that touch, allocating
and freeing again is the identity on the reported map. -/
theorem allocate_free_restores (initial : List InitialRegion)
    (inOrder : InitialRegion.InOrder initial)
    (onPages : ∀ region ∈ initial, region.pageCount ≠ 0 ∧ 4096 ∣ region.address.toNat)
    (operations : List Operation)
    (requests : ∀ operation ∈ operations, PageRequest operation) :
    ∃ responses allocator,
      run Allocator.new (history initial operations) = .ok (responses, allocator) ∧
      (allocator.Reports MemoryMap.Separated →
        ∀ allocateType memoryType pageCount (address : UInt64), 4096 ∣ address.toNat →
          RestoresMap allocator allocateType memoryType pageCount address) := by
  rcases run_represents Allocator.new_represents (history initial operations) with
    ⟨allocator, ran, represents⟩
  refine ⟨_, allocator, ran, ?_⟩
  rw [represents.reports_iff]
  intro separated allocateType memoryType pageCount address aligned
  apply restoresMap_of_paged represents ?_ separated (fun _ => aligned)
  rw [history, MemoryMap.run_append]
  exact (Paged.initial inOrder onPages).run requests

theorem allocate_free_restores_middle_of_region :
    ∃ responses allocator,
      run Allocator.new (history sixteenPages
        [.allocatePages .allocateAddress .loaderCode 3 0x204000]) = .ok (responses, allocator) ∧
      allocator.Reports MemoryMap.Separated ∧
      RestoresMap allocator .allocateAddress .bootServicesData 2 0x209000 := by
  rcases allocate_free_restores sixteenPages sixteenPages_inOrder (by simp [sixteenPages])
      [.allocatePages .allocateAddress .loaderCode 3 0x204000] (by simp [PageRequest]) with
    ⟨responses, allocator, ran, restores⟩
  have separated : allocator.Reports MemoryMap.Separated := by
    rw [(represents_of_run Allocator.new_represents ran).reports_iff]
    unfold MemoryMap.Separated
    decide
  exact ⟨responses, allocator, ran, separated, restores separated _ _ _ _ (by decide)⟩

end HypervisorFirmware.Alloc
