import HypervisorFirmware.Alloc.Conservation

/-! # Giving back an allocation

A client owns the memory of each successful allocation until it passes the
address to `free_pages`. The allocator identifies the allocation by the first
descriptor with that start address, which an empty descriptor can hide. -/

namespace HypervisorFirmware.Alloc

open Efi

structure LiveAllocation where
  address : UInt64
  pageCount : UInt64
  memoryType : MemoryType
  deriving DecidableEq, Repr

namespace LiveAllocation

def Owns (owned : LiveAllocation) (byte : Nat) : Prop :=
  owned.address.toNat ≤ byte ∧ byte < owned.address.toNat + 4096 * owned.pageCount.toNat

instance (owned : LiveAllocation) (byte : Nat) : Decidable (owned.Owns byte) :=
  inferInstanceAs (Decidable (_ ∧ _))

def update (live : List LiveAllocation) (response : Response) :
    Operation → List LiveAllocation
  | .allocatePages _ memoryType pageCount _ =>
    if response.status = .success then
      ⟨response.address, pageCount, memoryType⟩ :: live
    else live
  | .freePages address => live.filter fun owned => owned.address != address
  | _ => live

def after : List LiveAllocation → List Operation → List Response → List LiveAllocation
  | live, operation :: operations, response :: responses =>
    after (update live response operation) operations responses
  | live, _, _ => live

end LiveAllocation

/-- From the map before to the map after, exactly the bytes of `owned`, none of
which was conventional, become conventional, and every other live allocation
has its type. -/
structure ReleasesExactly (live : List LiveAllocation) (owned : LiveAllocation)
    (regions regions' : List Region) : Prop where
  taken : ∀ byte, owned.Owns byte →
    typeAt regions byte ≠ some MemoryType.conventionalMemory.toUInt32
  changed : ∀ byte, typeAt regions' byte =
    if owned.Owns byte then some MemoryType.conventionalMemory.toUInt32
    else typeAt regions byte
  others : ∀ other ∈ live, other ≠ owned → ∀ byte, other.Owns byte →
    typeAt regions' byte = some other.memoryType.toUInt32

def FreesExactly (allocator : Allocator) (live : List LiveAllocation)
    (owned : LiveAllocation) : Prop :=
  ∃ next, step allocator (.freePages owned.address) = .ok (⟨.success, 0⟩, next) ∧
    allocator.Reports fun regions => next.Reports fun regions' =>
      ReleasesExactly live owned regions regions'

def FirstNotEmpty (address : UInt64) (regions : List Region) : Prop :=
  ∀ region, regions.find? (fun region => region.physicalStart == address) = some region →
    region.numberOfPages ≠ 0

/-! ## The descriptors of live allocations -/

structure Region.Backs (region : Region) (owned : LiveAllocation) : Prop where
  start : region.physicalStart = owned.address
  pages : region.numberOfPages = owned.pageCount
  type : region.type = owned.memoryType.toUInt32

def Backed (regions : List Region) (live : List LiveAllocation) : Prop :=
  ∀ owned ∈ live, owned.pageCount ≠ 0 →
    owned.memoryType ≠ .conventionalMemory ∧ ∃ region ∈ regions, region.Backs owned

variable {owned : LiveAllocation} {address pageCount : UInt64} {allocateType : AllocateType}
   {live : List LiveAllocation} {map : MemoryMap}

theorem Region.Backs.contains_iff {region : Region} (backs : region.Backs owned) (byte : Nat) :
    region.span.Contains byte ↔ owned.Owns byte := by
  rw [Span.Contains, LiveAllocation.Owns, Region.span_lower, Region.span_upper, Region.top,
    Region.bottom, backs.start, backs.pages]

theorem Region.Backs.not_conventional {region : Region}
    (backs : region.Backs owned) (different : owned.memoryType ≠ .conventionalMemory) :
    region.isConventional = false := by
  rw [Region.isConventional, backs.type, beq_eq_false_iff_ne]
  intro equal
  exact different (MemoryType.toUInt32_injective equal)

theorem Region.Backs.unique {region : Region} {other : LiveAllocation}
    (backs : region.Backs owned) (backs' : region.Backs other) : other = owned := by
  rcases owned with ⟨address, pageCount, memoryType⟩
  rcases other with ⟨address', pageCount', memoryType'⟩
  have sameType := MemoryType.toUInt32_injective (backs'.type.symm.trans backs.type)
  have sameStart := backs'.start.symm.trans backs.start
  have samePages := backs'.pages.symm.trans backs.pages
  simp only at sameType sameStart samePages
  rw [sameType, sameStart, samePages]

theorem Laid.eq_of_shared {regions : List Region} (laid : Laid regions)
    {left right : Region} (leftMember : left ∈ regions) (rightMember : right ∈ regions)
    {byte : Nat} (leftInside : left.span.Contains byte)
    (rightInside : right.span.Contains byte) : left = right := by
  have disjoint := List.pairwise_map.mp laid.ascending.disjoint
  have symmetric : Std.Symm fun left right : Region =>
      ∀ byte, ¬(left.span.Contains byte ∧ right.span.Contains byte) :=
    ⟨fun _ _ apart byte both => apart byte both.symm⟩
  by_contra different
  exact disjoint.forall leftMember rightMember different byte ⟨leftInside, rightInside⟩

theorem toNat_pos {count : UInt64} (notZero : count ≠ 0) : 0 < count.toNat := by
  apply Nat.pos_of_ne_zero
  intro zero
  exact notZero (UInt64.toNat_inj.mp zero)

theorem Region.contains_bottom {region : Region} (notEmpty : region.numberOfPages ≠ 0) :
    region.span.Contains region.bottom := by
  have positive := toNat_pos notEmpty
  rw [Span.Contains, Region.span_lower, Region.span_upper, Region.top]
  omega

theorem Laid.eq_of_start {regions : List Region} (laid : Laid regions)
    {left right : Region} (leftMember : left ∈ regions) (rightMember : right ∈ regions)
    (leftPages : left.numberOfPages ≠ 0) (rightPages : right.numberOfPages ≠ 0)
    (start : left.physicalStart = right.physicalStart) : left = right := by
  apply laid.eq_of_shared leftMember rightMember (Region.contains_bottom leftPages)
  rw [Region.bottom, start]
  exact Region.contains_bottom rightPages

/-! ## Every call keeps live allocations backed -/

theorem Region.exists_placedInside {region : Region}
    (fits : region.Fits .allocateAddress pageCount address) (memoryType : MemoryType)
    (room : Nat)
    (success : (region.placeInside memoryType pageCount address room).1.1 = .success) :
    ∃ piece ∈ (region.placeInside memoryType pageCount address room).2,
      piece.Backs ⟨(region.placeInside memoryType pageCount address room).1.2, pageCount,
        memoryType⟩ := by
  have fewer := fits.pages_before
  unfold placeInside at success ⊢
  generalize (address - region.physicalStart) / pageSize = pages at fewer success ⊢
  have highPages : (region.dropPages pages).numberOfPages.toNat = _ :=
    numberOfPages_dropPages (by omega)
  cases room with
  | zero => cases success
  | succ room =>
    by_cases bigger : (region.dropPages pages).numberOfPages > pageCount
    · simp only [bigger, if_true] at success ⊢
      cases room with
      | zero => cases success
      | succ room => exact ⟨_, List.mem_cons_of_mem _ List.mem_cons_self, rfl, rfl, rfl⟩
    · simp only [bigger, if_false] at success ⊢
      refine ⟨_, List.mem_cons_of_mem _ List.mem_cons_self, rfl, ?_, rfl⟩
      have notBigger := UInt64.le_iff_toNat_le.mp (UInt64.not_lt.mp bigger)
      apply UInt64.toNat_inj.mp
      change (region.dropPages pages).numberOfPages.toNat = pageCount.toNat
      omega

theorem Region.exists_placed {region : Region} (fits : region.Fits allocateType pageCount address)
    (memoryType : MemoryType) (room : Nat)
    (success : (region.place allocateType memoryType pageCount address room).1.1 = .success) :
    ∃ piece ∈ (region.place allocateType memoryType pageCount address room).2,
      piece.Backs ⟨(region.place allocateType memoryType pageCount address room).1.2,
        pageCount, memoryType⟩ := by
  have atStart : (region.placeAtStart memoryType pageCount room).1.1 = .success →
      ∃ piece ∈ (region.placeAtStart memoryType pageCount room).2,
        piece.Backs ⟨(region.placeAtStart memoryType pageCount room).1.2, pageCount,
          memoryType⟩ := by
    intro succeeded
    cases room with
    | zero => cases succeeded
    | succ room => exact ⟨_, List.mem_cons_self, rfl, rfl, rfl⟩
  rcases region.place_cases allocateType memoryType pageCount address room with
    ⟨identical, placed⟩ | ⟨_, _, placed⟩ | ⟨_, isAddress, _, placed⟩
  · rw [placed]
    exact ⟨_, List.mem_cons_self, rfl, identical, rfl⟩
  · rw [placed] at success ⊢
    exact atStart success
  · rw [placed] at success ⊢
    exact exists_placedInside (isAddress ▸ fits) memoryType room success

theorem MemoryMap.mem_mergeFrom {current region : Region} {rest : List Region}
    (member : region ∈ current :: rest) (kept : region.isConventional = false) :
    region ∈ mergeFrom current rest := by
  induction rest generalizing current with
  | nil => exact member
  | cons next rest induction =>
    rw [mergeFrom]
    split_ifs with absorbs
    · have conventional : current.isConventional = true ∧ next.isConventional = true := by
        simp only [Region.absorbs, Bool.and_eq_true] at absorbs
        exact absorbs.1
      apply induction
      rcases List.mem_cons.mp member with equal | later
      · rw [equal, conventional.1] at kept
        cases kept
      · rcases List.mem_cons.mp later with equal | later
        · rw [equal, conventional.2] at kept
          cases kept
        · exact List.mem_cons_of_mem _ later
    · rcases List.mem_cons.mp member with equal | later
      · exact List.mem_cons.mpr (.inl equal)
      · exact List.mem_cons_of_mem _ (induction later)

theorem MemoryMap.mem_merge {region : Region} {regions : List Region}
    (member : region ∈ regions) (kept : region.isConventional = false) :
    region ∈ merge regions := by
  cases regions with
  | nil => cases member
  | cons first rest => exact mem_mergeFrom member kept

/-- A call of `allocate_pages` for memory that is not conventional, or of
`free_pages`; an `AllocateAddress` request names only bytes below `2^64`. -/
def ClientCall : Operation → Prop
  | .allocatePages allocateType memoryType pageCount address =>
    Bounded allocateType pageCount address ∧ memoryType ≠ .conventionalMemory
  | .freePages _ => True
  | _ => False

theorem ClientCall.pageCall {operation : Operation} (call : ClientCall operation) :
    PageCall operation := by
  cases operation with
  | allocatePages => exact call.1
  | freePages => trivial
  | addInitialAllocation => cases call
  | updateVirtualAddresses => cases call

theorem Backed.allocate
    (laid : Laid map.regions) (backed : Backed map.regions live) {memoryType : MemoryType}
    (bounded : Bounded allocateType pageCount address)
    (different : memoryType ≠ .conventionalMemory) :
    let outcome := map.allocate allocateType memoryType pageCount address
    Backed outcome.2.regions
      (if outcome.1.1 = .success then ⟨outcome.1.2, pageCount, memoryType⟩ :: live else live) := by
  intro outcome
  rcases map.allocate_cases allocateType memoryType pageCount address with
    ⟨_, unchanged⟩ | ⟨before, region, after, regionsEqual, _, serves, outcomeEqual⟩
  · rw [show outcome = _ from unchanged]
    exact backed
  · rw [show outcome = _ from outcomeEqual]
    have below := laid.below region (by simp [regionsEqual])
    have fits := Region.fits_of_canServe below bounded serves
    -- A region that backs an allocation is not the conventional one that is cut.
    have kept : ∀ owned ∈ live, owned.pageCount ≠ 0 →
        owned.memoryType ≠ .conventionalMemory ∧
          ∃ backing ∈ before ++
            (region.place allocateType memoryType pageCount address map.room).2 ++ after,
            backing.Backs owned := by
      intro owned member notEmpty
      rcases backed owned member notEmpty with ⟨ownedType, backing, backingMember, backs⟩
      refine ⟨ownedType, backing, ?_, backs⟩
      have notConventional := backs.not_conventional ownedType
      rw [regionsEqual] at backingMember
      rcases List.mem_append.mp backingMember with earlier | rest
      · simp [earlier]
      · rcases List.mem_cons.mp rest with equal | later
        · rw [equal, Region.isConventional, Region.conventional_of_canServe serves]
            at notConventional
          cases notConventional
        · simp [later]
    split_ifs with success
    · intro owned member notEmpty
      rcases List.mem_cons.mp member with equal | older
      · rcases Region.exists_placed fits memoryType map.room success with
          ⟨piece, pieceMember, backs⟩
        rw [equal]
        exact ⟨different, piece, by simp [pieceMember], backs⟩
      · exact kept owned older notEmpty
    · exact kept

theorem Backed.free (backed : Backed map.regions live) (address : UInt64) :
    Backed (map.free address).2.regions (live.filter fun owned => owned.address != address) := by
  intro owned member notEmpty
  rcases List.mem_filter.mp member with ⟨older, otherAddress⟩
  rcases backed owned older notEmpty with ⟨ownedType, backing, backingMember, backs⟩
  refine ⟨ownedType, backing, ?_, backs⟩
  rcases map.free_cases address with
    ⟨_, unchanged⟩ | ⟨before, region, after, regionsEqual, _, _, start, freed⟩
  · rw [unchanged]
    exact backingMember
  · rw [freed]
    apply MemoryMap.mem_merge _ (backs.not_conventional ownedType)
    rw [regionsEqual] at backingMember
    rcases List.mem_append.mp backingMember with earlier | rest
    · simp [earlier]
    · rcases List.mem_cons.mp rest with equal | later
      · rw [← backs.start, equal, start] at otherAddress
        simp at otherAddress
      · simp [later]

theorem Backed.step
    (laid : Laid map.regions) (backed : Backed map.regions live) {operation : Operation}
    (call : ClientCall operation) :
    Backed (map.step operation).2.regions
      (LiveAllocation.update live (map.step operation).1 operation) := by
  cases operation with
  | allocatePages => exact backed.allocate laid call.1 call.2
  | freePages address => exact backed.free address
  | addInitialAllocation => cases call
  | updateVirtualAddresses => cases call

theorem Backed.run (laid : Laid map.regions) (backed : Backed map.regions live)
    {operations : List Operation}
    (calls : ∀ operation ∈ operations, ClientCall operation) :
    Backed (map.run operations).regions
      (LiveAllocation.after live operations (map.responses operations)) := by
  induction operations generalizing map live with
  | nil => exact backed
  | cons operation rest induction =>
    have call := calls operation List.mem_cons_self
    exact induction (step_conserves laid call.pageCall).1 (backed.step laid call)
      fun later member => calls later (List.mem_cons_of_mem _ member)

/-! ## What a free of a live allocation does -/

theorem freesExactly_iff_map {allocator : Allocator}
    (represents : allocator.Represents map) (live : List LiveAllocation)
    (owned : LiveAllocation) :
    FreesExactly allocator live owned ↔
      (map.free owned.address).1 = .success ∧
        ReleasesExactly live owned map.regions (map.free owned.address).2.regions := by
  rcases step_represents represents (.freePages owned.address) with ⟨next, stepped, kept⟩
  have reports := represents.reports_iff
  have nextReports := kept.reports_iff
  rw [FreesExactly, stepped]
  simp only [Except.ok.injEq, Prod.mk.injEq, reports]
  constructor
  · rintro ⟨_, ⟨response, rfl⟩, released⟩
    exact ⟨congrArg Response.status response, (nextReports _).mp released⟩
  · intro outcome
    exact ⟨next, ⟨congrArg (Response.mk · 0) outcome.1, rfl⟩, (nextReports _).mpr outcome.2⟩

theorem releasesExactly_iff (laid : Laid map.regions) (backed : Backed map.regions live)
    (member : owned ∈ live) (notEmpty : owned.pageCount ≠ 0) :
    ((map.free owned.address).1 = .success ∧
      ReleasesExactly live owned map.regions (map.free owned.address).2.regions) ↔
      FirstNotEmpty owned.address map.regions := by
  rcases backed owned member notEmpty with ⟨ownedType, backing, backingMember, backs⟩
  have backingPages : backing.numberOfPages ≠ 0 := backs.pages ▸ notEmpty
  have types := (laid.free owned.address).2
  rcases map.free_cases owned.address with
    ⟨missing, _⟩ | ⟨before, region, after, regionsEqual, found, _, start, freed⟩
  · have absent := List.find?_eq_none.mp missing backing backingMember
    simp [backs.start] at absent
  · rw [found] at types
    simp only at types
    have regionMember : region ∈ map.regions := by simp [regionsEqual]
    have ownedByte : owned.Owns backing.bottom :=
      (backs.contains_iff _).mp (Region.contains_bottom backingPages)
    rw [FirstNotEmpty, found]
    simp only [Option.some.injEq, forall_eq']
    constructor
    · rintro ⟨_, released⟩ empty
      have unchanged := types backing.bottom
      have notInside : ¬region.span.Contains backing.bottom := by
        rw [Span.Contains, Region.span_lower, Region.span_upper, Region.top, empty]
        simp
      rw [released.changed, if_pos ownedByte, if_neg notInside] at unchanged
      exact released.taken _ ownedByte unchanged.symm
    · intro regionPages
      have same : region = backing := laid.eq_of_start regionMember backingMember regionPages
        backingPages (start.trans backs.start.symm)
      subst same
      refine ⟨by rw [freed], ?_, ?_, ?_⟩
      · intro byte owns equal
        rw [laid.typeAt_of_mem backingMember ((backs.contains_iff byte).mpr owns), backs.type]
          at equal
        exact ownedType (MemoryType.toUInt32_injective (Option.some.inj equal))
      · intro byte
        rw [types byte]
        simp only [backs.contains_iff]
      · intro other otherMember different byte owns
        have otherNotEmpty : other.pageCount ≠ 0 := by
          intro zero
          have range := owns
          rw [LiveAllocation.Owns, zero] at range
          simp at range
          omega
        rcases backed other otherMember otherNotEmpty with
          ⟨_, otherBacking, otherBackingMember, otherBacks⟩
        have inside := (otherBacks.contains_iff byte).mpr owns
        have outside : ¬region.span.Contains byte := by
          intro shared
          have sameBacking := laid.eq_of_shared otherBackingMember backingMember inside shared
          rw [sameBacking] at otherBacks
          exact different (backs.unique otherBacks)
        rw [types byte, if_neg outside, laid.typeAt_of_mem otherBackingMember inside,
          otherBacks.type]

/-- The initial regions and the client's calls after them all return, and `Holds`
is true of the live allocations and the state then. -/
def AfterClientCalls (initial : List InitialRegion) (operations : List Operation)
    (Holds : List LiveAllocation → Allocator → Prop) : Prop :=
  ∃ added started responses allocator,
    run Allocator.new (initial.map InitialRegion.operation) = .ok (added, started) ∧
    run started operations = .ok (responses, allocator) ∧
    Holds (LiveAllocation.after [] operations responses) allocator

/-- In every state that client calls reach, `free_pages` on a live allocation of at
least one page gives back exactly that allocation if and only if the first
descriptor at its address is not empty. -/
theorem freesExactly_iff_first_not_empty (initial : List InitialRegion)
    (inOrder : InitialRegion.InOrder initial) (operations : List Operation)
    (calls : ∀ operation ∈ operations, ClientCall operation) :
    AfterClientCalls initial operations fun live allocator =>
      ∀ owned ∈ live, owned.pageCount ≠ 0 →
        (FreesExactly allocator live owned ↔
          allocator.Reports (FirstNotEmpty owned.address)) := by
  rcases run_represents Allocator.new_represents
      (initial.map InitialRegion.operation) with ⟨started, ranInitial, startedRepresents⟩
  rcases run_represents startedRepresents operations with ⟨allocator, ran, represents⟩
  have laid := (run_conserves inOrder.laid_run fun operation member =>
    (calls operation member).pageCall).1
  have nothingLive : Backed
      (MemoryMap.empty.run (initial.map InitialRegion.operation)).regions [] := by
    simp [Backed]
  have backed := nothingLive.run inOrder.laid_run calls
  refine ⟨_, started, _, allocator, ranInitial, ran, ?_⟩
  intro owned member notEmpty
  rw [freesExactly_iff_map represents, represents.reports_iff]
  exact releasesExactly_iff laid backed member notEmpty

theorem freesExactly_iff_first_not_empty_one_region :
    AfterClientCalls sixteenPages
      [.allocatePages .allocateAnyPages .loaderData 2 0,
        .allocatePages .allocateAddress .bootServicesCode 3 0x208000]
      fun live allocator =>
        ∀ owned ∈ live, owned.pageCount ≠ 0 →
          (FreesExactly allocator live owned ↔
            allocator.Reports (FirstNotEmpty owned.address)) := by
  apply freesExactly_iff_first_not_empty
  · exact sixteenPages_inOrder
  · simp [ClientCall, Bounded]

/-- A request for zero pages leaves an empty descriptor in front of the next
allocation, and the free of that allocation frees the empty one. -/
theorem not_freesExactly_behind_empty :
    AfterClientCalls sixteenPages
      [.allocatePages .allocateAnyPages .loaderData 0 0,
        .allocatePages .allocateAnyPages .loaderData 1 0]
      fun live allocator =>
        ∃ owned ∈ live, owned.pageCount ≠ 0 ∧ ¬FreesExactly allocator live owned := by
  rcases run_represents Allocator.new_represents (sixteenPages.map InitialRegion.operation) with
    ⟨started, ranInitial, startedRepresents⟩
  rcases run_represents startedRepresents
      [.allocatePages .allocateAnyPages .loaderData 0 0,
        .allocatePages .allocateAnyPages .loaderData 1 0] with
    ⟨allocator, ran, represents⟩
  refine ⟨_, started, _, allocator, ranInitial, ran, ⟨0x200000, 1, .loaderData⟩,
    by decide, by decide, ?_⟩
  rw [freesExactly_iff_map represents]
  rintro ⟨_, released⟩
  have changed := released.changed 0x200000
  exact absurd changed (by decide)

end HypervisorFirmware.Alloc
