import HypervisorFirmware.Alloc.WrappedRequests

/-! # The effect of an allocation

What a successful `allocate_pages` call does to the map from bytes to memory types
and attributes: the bytes that it hands out change their type, and nothing else
changes. -/

namespace HypervisorFirmware.Alloc

open Efi

/-! ## The attributes of every byte -/

def Region.attributeSpan (region : Region) : Span UInt64 where
  lower := region.bottom
  upper := region.top
  label := region.attributes
  ordered := region.span.ordered

@[simp] theorem Region.attributeSpan_contains (region : Region) (byte : Nat) :
    region.attributeSpan.Contains byte ↔ region.span.Contains byte := Iff.rfl

def attributesAt (regions : List Region) (byte : Nat) : Option UInt64 :=
  Span.labelAt (regions.map Region.attributeSpan) byte

theorem tiles_attributeSpan {lower upper : Nat} {pieces : List Region}
    (tiles : Span.Tiles lower upper (pieces.map Region.span)) :
    Span.Tiles lower upper (pieces.map Region.attributeSpan) := by
  induction pieces generalizing lower with
  | nil => exact tiles
  | cons piece rest induction => exact ⟨tiles.1, induction tiles.2⟩

theorem Laid.ascending_attributes {regions : List Region} (laid : Laid regions) :
    Span.Ascending (regions.map Region.attributeSpan) := by
  have ascending := laid.ascending
  rw [Span.Ascending, List.pairwise_map] at ascending ⊢
  exact ascending

theorem Laid.attributesAt_of_mem {regions : List Region} (laid : Laid regions)
    {region : Region} (member : region ∈ regions) {byte : Nat}
    (inside : region.span.Contains byte) :
    attributesAt regions byte = some region.attributes := by
  have inside' : region.attributeSpan.Contains byte := inside
  exact Span.labelAt_eq_some_of_mem laid.ascending_attributes (List.mem_map_of_mem member) inside'

theorem Laid.attributesAt_replace {before pieces after : List Region} {region : Region}
    (laid : Laid (before ++ region :: after))
    (tiles : Span.Tiles region.bottom region.top (pieces.map Region.span)) (byte : Nat) :
    attributesAt (before ++ pieces ++ after) byte =
      if region.span.Contains byte then attributesAt pieces byte
      else attributesAt (before ++ region :: after) byte := by
  have ordered : Span.Ascending (before.map Region.attributeSpan ++
      region.attributeSpan :: after.map Region.attributeSpan) := by
    simpa using laid.ascending_attributes
  have replaced := Span.labelAt_replace ordered (tiles_attributeSpan tiles) byte
  simpa [attributesAt] using replaced

/-! ## Pieces and the bytes handed out -/

namespace Region

variable {memoryType : MemoryType} {pageCount : UInt64} {piece : Region}

theorem placeAtStart_attributes {region : Region} {room : Nat}
    (member : piece ∈ (region.placeAtStart memoryType pageCount room).2) :
    piece.attributes = region.attributes ∨
      ∀ byte, piece.span.Contains byte →
        Granted (region.placeAtStart memoryType pageCount room).1 pageCount byte := by
  cases room with
  | zero =>
    left
    rw [List.mem_singleton.mp member]
  | succ room =>
    rcases List.mem_cons.mp member with taken | rest
    · right
      intro byte contains
      rw [taken] at contains
      exact ⟨rfl, contains⟩
    · left
      rw [List.mem_singleton.mp rest]
      rfl

theorem placeInside_attributes {region : Region} {address : UInt64} {room : Nat}
    (member : piece ∈ (region.placeInside memoryType pageCount address room).2) :
    piece.attributes = region.attributes ∨
      ∀ byte, piece.span.Contains byte →
        Granted (region.placeInside memoryType pageCount address room).1 pageCount byte := by
  cases room with
  | zero =>
    left
    rw [List.mem_singleton.mp member]
  | succ room =>
    rw [placeInside_succ] at member ⊢
    generalize (address - region.physicalStart) / pageSize = pages at member ⊢
    by_cases bigger : (region.dropPages pages).numberOfPages > pageCount
    · rw [if_pos bigger] at member ⊢
      rcases List.mem_cons.mp member with low | rest
      · left
        rw [low]
        rfl
      · exact placeAtStart_attributes rest
    · rw [if_neg bigger] at member ⊢
      rcases List.mem_cons.mp member with low | taken
      · left
        rw [low]
        rfl
      · right
        intro byte contains
        rw [List.mem_singleton.mp taken, Span.Contains, span_lower, span_upper, top_assign,
          bottom_assign, top] at contains
        have fewer := UInt64.le_iff_toNat_le.mp (UInt64.not_lt.mp bigger)
        refine ⟨rfl, contains.1, ?_⟩
        change byte < (region.dropPages pages).bottom + 4096 * pageCount.toNat
        omega

theorem place_attributes {region : Region} {allocateType : AllocateType} {address : UInt64}
    {room : Nat}
    (member : piece ∈ (region.place allocateType memoryType pageCount address room).2) :
    piece.attributes = region.attributes ∨
      ∀ byte, piece.span.Contains byte →
        Granted (region.place allocateType memoryType pageCount address room).1 pageCount
          byte := by
  rcases region.place_cases allocateType memoryType pageCount address room with
    ⟨_, placed⟩ | ⟨_, _, placed⟩ | ⟨_, _, _, placed⟩
  · left
    rw [placed] at member
    rw [List.mem_singleton.mp member]
    rfl
  · rw [placed] at member ⊢
    exact placeAtStart_attributes member
  · rw [placed] at member ⊢
    exact placeInside_attributes member

end Region

variable {address pageCount : UInt64} {allocateType : AllocateType} {map : MemoryMap}

theorem Laid.attributesAt_allocate (laid : Laid map.regions) (fits : ∀ region,
      map.regions.find? (Region.canServe allocateType pageCount address) = some region →
        region.Fits allocateType pageCount address) (memoryType : MemoryType) {byte : Nat}
    (outside : ¬Granted (map.allocate allocateType memoryType pageCount address).1 pageCount byte) :
    attributesAt (map.allocate allocateType memoryType pageCount address).2.regions byte =
      attributesAt map.regions byte := by
  rcases map.allocate_cases allocateType memoryType pageCount address with
    ⟨_, unchanged⟩ | ⟨before, region, after, regionsEqual, found, _, outcome⟩
  · rw [unchanged]
  · have laid' : Laid (before ++ region :: after) := regionsEqual ▸ laid
    have cut := Region.place_cutInto (laid'.below region (by simp)) (fits region found)
      memoryType map.room
    rw [outcome] at outside ⊢
    rw [laid'.attributesAt_replace cut.tiles, regionsEqual]
    split_ifs with contains
    · -- Some piece contains the byte; it is not the one that is handed out.
      rcases (cut.tiles.covers_iff byte).mpr contains with ⟨span, spanMember, inside⟩
      rcases List.mem_map.mp spanMember with ⟨piece, member, equal⟩
      subst equal
      have keeps : piece.attributes = region.attributes := by
        rcases Region.place_attributes member with keeps | handedOut
        · exact keeps
        · exact absurd (handedOut byte inside) outside
      have inside' : piece.attributeSpan.Contains byte := inside
      have label := Span.labelAt_eq_some_of_mem (tiles_attributeSpan cut.tiles).ascending
        (List.mem_map_of_mem member) inside'
      rw [laid'.attributesAt_of_mem (by simp) contains, ← keeps]
      exact label
    · rfl

/-! ## Where the memory lies -/

theorem Region.place_address {region : Region}
    (general : allocateType ≠ .allocateAddress) (memoryType : MemoryType)
    (pageCount address : UInt64) (room : Nat)
    (success : (region.place allocateType memoryType pageCount address room).1.1 = .success) :
    (region.place allocateType memoryType pageCount address room).1.2 =
      region.physicalStart := by
  rcases region.place_cases allocateType memoryType pageCount address room with
    ⟨_, placed⟩ | ⟨_, _, placed⟩ | ⟨_, isAddress, _, _⟩
  · rw [placed]
  · rw [placed] at success ⊢
    cases room with
    | zero => cases success
    | succ room => rfl
  · exact absurd isAddress general

theorem MemoryMap.allocate_start
    (general : allocateType ≠ .allocateAddress) {memoryType : MemoryType}
    (success : (map.allocate allocateType memoryType pageCount address).1.1 = .success) :
    ∃ region ∈ map.regions, region.canServe allocateType pageCount address = true ∧
      (map.allocate allocateType memoryType pageCount address).1.2 = region.physicalStart := by
  rcases map.allocate_cases allocateType memoryType pageCount address with
    ⟨_, unchanged⟩ | ⟨before, region, after, regionsEqual, _, serves, outcome⟩
  · rw [unchanged] at success
    cases success
  · rw [outcome] at success ⊢
    refine ⟨region, by simp [regionsEqual], serves, ?_⟩
    exact Region.place_address general memoryType pageCount address map.room success

/-- The bytes handed out were conventional and have the requested type, the others
keep type and attributes, and the memory lies where its kind of request asks for. -/
structure AllocationEffect (allocateType : AllocateType) (memoryType : MemoryType)
    (pageCount address assigned : UInt64) (regions regions' : List Region) : Prop where
  wereFree : ∀ byte, assigned.toNat ≤ byte → byte < assigned.toNat + 4096 * pageCount.toNat →
    typeAt regions byte = some MemoryType.conventionalMemory.toUInt32
  taken : ∀ byte, assigned.toNat ≤ byte → byte < assigned.toNat + 4096 * pageCount.toNat →
    typeAt regions' byte = some memoryType.toUInt32
  kept : ∀ byte,
    ¬(assigned.toNat ≤ byte ∧ byte < assigned.toNat + 4096 * pageCount.toNat) →
      typeAt regions' byte = typeAt regions byte ∧
        attributesAt regions' byte = attributesAt regions byte
  aboveMegabyte : allocateType = .allocateAnyPages → 0x100000 < assigned.toNat
  belowMaximum : allocateType = .allocateMaxAddress →
    assigned.toNat + 4096 * pageCount.toNat ≤ address.toNat

def AllocatesProperly (allocator : Allocator) (allocateType : AllocateType)
    (memoryType : MemoryType) (pageCount address : UInt64) : Prop :=
  ∃ status assigned next,
    allocator.allocatePages allocateType memoryType pageCount address =
      .ok ((status, assigned), next) ∧
    (status = .success → allocator.Reports fun regions => next.Reports fun regions' =>
      AllocationEffect allocateType memoryType pageCount address assigned regions regions')

theorem Laid.allocationEffect (laid : Laid map.regions)
    (bounded : Bounded allocateType pageCount address) (memoryType : MemoryType)
    (success : (map.allocate allocateType memoryType pageCount address).1.1 = .success) :
    AllocationEffect allocateType memoryType pageCount address
      (map.allocate allocateType memoryType pageCount address).1.2 map.regions
      (map.allocate allocateType memoryType pageCount address).2.regions := by
  rcases laid.allocate bounded memoryType with ⟨_, wereFree, types⟩
  have granted : ∀ byte, Granted (map.allocate allocateType memoryType pageCount address).1
      pageCount byte ↔
        (map.allocate allocateType memoryType pageCount address).1.2.toNat ≤ byte ∧
          byte < (map.allocate allocateType memoryType pageCount address).1.2.toNat +
            4096 * pageCount.toNat := by
    intro byte
    simp [Granted, success]
  constructor
  · intro byte lower upper
    exact wereFree byte ((granted byte).mpr ⟨lower, upper⟩)
  · intro byte lower upper
    rw [types byte, if_pos ((granted byte).mpr ⟨lower, upper⟩)]
  · intro byte outside
    have notGranted := mt (granted byte).mp outside
    exact ⟨(types byte).trans (if_neg notGranted),
      laid.attributesAt_allocate (fun _ => laid.fits bounded) memoryType notGranted⟩
  · intro anyPages
    subst anyPages
    rcases MemoryMap.allocate_start (by decide) success with ⟨region, _, serves, assigned⟩
    simp only [Region.canServe, Bool.and_eq_true, decide_eq_true_eq] at serves
    rw [assigned]
    exact UInt64.lt_iff_toNat_lt.mp serves.2.2
  · intro maxAddress
    subst maxAddress
    rcases MemoryMap.allocate_start (by decide) success with
      ⟨region, member, serves, assigned⟩
    have below := laid.below region member
    have pages := (Region.fits_of_canServe below bounded serves).pages
    simp only [Region.canServe, Bool.and_eq_true, decide_eq_true_eq] at serves
    have requestEnd := UInt64.le_iff_toNat_le.mp serves.2.2
    rw [UInt64.toNat_add, UInt64.toNat_mul, pageSize_toNat] at requestEnd
    unfold Region.top Region.bottom at below
    rw [assigned]
    omega

/-- As long as no request wraps around into a descriptor, every successful allocation
has exactly the effect it should have. -/
theorem allocatesProperly_of_noServedWrap (initial : List InitialRegion)
    (inOrder : InitialRegion.InOrder initial) (operations : List Operation)
    (calls : ∀ operation ∈ operations, ServiceCall operation)
    (unserved : NoServedWrap (history initial operations)) :
    ∃ responses allocator,
      run Allocator.new (history initial operations) = .ok (responses, allocator) ∧
      ∀ allocateType memoryType pageCount address,
        address.toNat + 4096 * pageCount.toNat < 2 ^ 64 →
          AllocatesProperly allocator allocateType memoryType pageCount address := by
  rcases run_represents Allocator.new_represents (history initial operations) with
    ⟨allocator, ran, represents⟩
  have laid := unserved.laid inOrder calls
  refine ⟨_, allocator, ran, ?_⟩
  intro allocateType memoryType pageCount address bounded
  rcases Allocator.allocatePages_represents represents allocateType memoryType pageCount
      address with ⟨next, returned, kept⟩
  refine ⟨_, _, next, returned, ?_⟩
  intro success
  rw [represents.reports_iff, kept.reports_iff]
  exact laid.allocationEffect (fun _ => bounded) memoryType success

theorem allocatesProperly_of_noServedWrap_one_region :
    ∃ responses allocator,
      run Allocator.new (history sixteenPages
        [.allocatePages .allocateAddress .loaderCode 2 0x204000, .freePages 0x204000]) =
          .ok (responses, allocator) ∧
      ∀ allocateType memoryType pageCount address,
        address.toNat + 4096 * pageCount.toNat < 2 ^ 64 →
          AllocatesProperly allocator allocateType memoryType pageCount address := by
  apply allocatesProperly_of_noServedWrap
  · exact sixteenPages_inOrder
  · simp [ServiceCall]
  · apply noServedWrap_of_bounded
    intro memoryType pageCount address member
    have only : memoryType = .loaderCode ∧ pageCount = 2 ∧ address = 0x204000 := by
      simpa [history, sixteenPages, InitialRegion.operation] using member
    rw [only.2.1, only.2.2]
    decide

/-- After a request for `2^52 + 1` pages at the start of 16 free pages, a request for
100 pages succeeds. -/
theorem not_allocatesProperly_after_wrap :
    ∃ responses allocator,
      run Allocator.new (history sixteenPages
        [.allocatePages .allocateAddress .loaderData 0x10000000000001 0x200000]) =
          .ok (responses, allocator) ∧
      ¬AllocatesProperly allocator .allocateAnyPages .loaderData 100 0 := by
  rcases run_represents Allocator.new_represents
      (history sixteenPages
        [.allocatePages .allocateAddress .loaderData 0x10000000000001 0x200000]) with
    ⟨allocator, ran, represents⟩
  refine ⟨_, allocator, ran, ?_⟩
  rintro ⟨status, assigned, next, returned, effect⟩
  rcases Allocator.allocatePages_represents represents .allocateAnyPages .loaderData 100 0 with
    ⟨next', returned', kept⟩
  rw [returned] at returned'
  cases returned'
  have properly := effect (by decide)
  rw [represents.reports_iff, kept.reports_iff] at properly
  have free := properly.wereFree 0x210000 (by decide) (by decide)
  exact absurd free (by decide)

end HypervisorFirmware.Alloc
