import HypervisorFirmware.Alloc.Carving
import HypervisorFirmware.Init.InitializeMemory

/-! # Protection of reserved memory

After `initialize_memory`, memory that the platform reports as allocated should
not be free. A reservation succeeds when one descriptor contains all of it, so
it must lie in one resource that no earlier reservation has cut inside it. -/

namespace HypervisorFirmware.Init

open Efi HypervisorFirmware.Pi Alloc

/-- The shape that the platform promises. -/
structure ValidHobs (hobs : List Hob) : Prop where
  resourcesAligned : ∀ resource ∈ systemResources hobs,
    4096 ∣ resource.bottom ∧ 4096 ∣ resource.resourceLength.toNat
  resourcesInOrder : (systemResources hobs).Pairwise fun left right => left.top ≤ right.bottom
  resourcesBelow : ∀ resource ∈ systemResources hobs, resource.top < 2 ^ 64
  reservationsAligned : ∀ reservation ∈ reservations hobs,
    4096 ∣ reservation.bottom ∧ 4096 ∣ reservation.memoryLength.toNat
  reservationsDisjoint : (reservations hobs).Pairwise fun left right =>
    ∀ byte, ¬(left.Contains byte ∧ right.Contains byte)
  reservationsBelow : ∀ reservation ∈ reservations hobs, reservation.top < 2 ^ 64
  reservationsInMemory : ∀ reservation ∈ reservations hobs, ∀ byte,
    reservation.Contains byte → ∃ resource ∈ systemResources hobs, resource.Contains byte
  few : hobs.length < 10000

/-- Every reservation that is not empty is for memory that is not conventional,
lies in one resource, and no earlier empty reservation lies strictly inside it. -/
structure Reservable (hobs : List Hob) : Prop where
  notConventional : ∀ reservation ∈ reservations hobs, reservation.bottom < reservation.top →
    reservation.memoryType ≠ .conventionalMemory
  inOneResource : ∀ reservation ∈ reservations hobs, reservation.bottom < reservation.top →
    ∃ resource ∈ systemResources hobs,
      resource.bottom ≤ reservation.bottom ∧ reservation.top ≤ resource.top
  notSplit : (reservations hobs).Pairwise fun earlier later =>
    earlier.bottom = earlier.top →
      ¬(later.bottom < earlier.bottom ∧ earlier.bottom < later.top)

/-! ## One reservation -/

structure Aligned (reservation : MemoryAllocation) : Prop where
  bottom : 4096 ∣ reservation.bottom
  length : 4096 ∣ reservation.memoryLength.toNat
  below : reservation.top < 2 ^ 64

/-- The regions that the reservations cut up: laid out in order, page-aligned,
and each inside one resource. -/
structure Settled (resources : List ResourceDescription) (regions : List Region) : Prop where
  laid : Laid regions
  aligned : ∀ region ∈ regions, 4096 ∣ region.bottom
  inside : ∀ region ∈ regions, ∃ resource ∈ resources,
    resource.bottom ≤ region.bottom ∧ region.top ≤ resource.top

def Served (regions : List Region) (reservation : MemoryAllocation) : Prop :=
  ∃ region ∈ regions, region.Serves reservation.bottom reservation.top

variable {reservation later : MemoryAllocation} {map : MemoryMap}
   {resources : List ResourceDescription} {hobs : List Hob}

theorem Aligned.top_eq (aligned : Aligned reservation) :
    reservation.memoryBaseAddress.toNat +
      4096 * (reservation.memoryLength / pageSize).toNat = reservation.top := by
  have length := aligned.length
  rw [UInt64.toNat_div, pageSize_toNat, MemoryAllocation.top, MemoryAllocation.bottom]
  omega

section

variable (settled : Settled resources map.regions) (aligned : Aligned reservation)
  (room : map.regions.length + 2 ≤ maxAllocations)

include settled aligned room

theorem reserve_cases :
    (¬Served map.regions reservation ∧ (map.step (reserve reservation)).2 = map) ∨
    ∃ before region after pieces, map.regions = before ++ region :: after ∧
      region.Serves reservation.bottom reservation.top ∧
      region.CarvedInto reservation.memoryType reservation.bottom reservation.top pieces ∧
      Span.Tiles region.bottom region.top (pieces.map Region.span) ∧
      (map.step (reserve reservation)).2.regions = before ++ pieces ++ after ∧
      (map.step (reserve reservation)).1 = ⟨.success, reservation.memoryBaseAddress⟩ := by
  have requestEnd := aligned.top_eq
  have bounded : reservation.memoryBaseAddress.toNat +
      4096 * (reservation.memoryLength / pageSize).toNat < 2 ^ 64 := by
    rw [requestEnd]
    exact aligned.below
  rcases map.allocate_cases .allocateAddress reservation.memoryType
      (reservation.memoryLength / pageSize) reservation.memoryBaseAddress with
    ⟨missing, unchanged⟩ | ⟨before, region, after, regionsEqual, _, canServe, outcome⟩
  · refine .inl ⟨?_, ?_⟩
    · rintro ⟨region, member, serves⟩
      have below := settled.laid.below region member
      rw [← requestEnd] at serves
      exact List.find?_eq_none.mp missing region member
        ((Region.canServe_iff_serves below bounded).mpr serves)
    · simp only [reserve, MemoryMap.step, unchanged]
  · right
    have member : region ∈ map.regions := by simp [regionsEqual]
    have below := settled.laid.below region member
    have fits := Region.fits_of_canServe below (fun _ => bounded) canServe
    have serves := (Region.canServe_iff_serves below bounded).mp canServe
    have onPage : 4096 ∣ reservation.memoryBaseAddress.toNat - region.bottom :=
      Nat.dvd_sub aligned.bottom (settled.aligned region member)
    have enough : 2 ≤ map.room := by
      rw [MemoryMap.room]
      omega
    rcases Region.place_carvedInto below fits onPage reservation.memoryType enough with
      ⟨succeeded, carved⟩
    have cut := Region.place_cutInto below fits reservation.memoryType map.room
    rw [requestEnd] at serves carved
    refine ⟨before, region, after, _, regionsEqual, serves, carved, cut.tiles, ?_, ?_⟩
    · simp only [reserve, MemoryMap.step, outcome]
    · simp only [reserve, MemoryMap.step, outcome, succeeded]

theorem Settled.reserve :
    Settled resources (map.step (reserve reservation)).2.regions ∧
      (map.step (reserve reservation)).2.regions.length ≤ map.regions.length + 2 := by
  rcases reserve_cases settled aligned room with
    ⟨_, unchanged⟩ | ⟨before, region, after, pieces, regionsEqual, _, carved, tiles, cut, _⟩
  · rw [unchanged]
    exact ⟨settled, by omega⟩
  · have member : region ∈ map.regions := by simp [regionsEqual]
    have topAligned : 4096 ∣ reservation.top := by
      have bottom := aligned.bottom
      have length := aligned.length
      rw [MemoryAllocation.top]
      omega
    have whole := settled
    rw [regionsEqual] at whole
    rw [cut]
    refine ⟨⟨whole.laid.replace tiles, forall_mem_replaced whole.aligned fun piece here => ?_,
      forall_mem_replaced whole.inside fun piece here => ?_⟩, ?_⟩
    · exact carved.aligned (settled.aligned region member) aligned.bottom topAligned here
    · rcases settled.inside region member with ⟨resource, resourceMember, lower, upper⟩
      have bounds := tiles.bounds (List.mem_map_of_mem here)
      rw [Region.span_lower, Region.span_upper] at bounds
      exact ⟨resource, resourceMember, by omega, by omega⟩
    · have few := carved.length_le
      rw [regionsEqual]
      simp only [List.length_append, List.length_cons]
      omega

theorem typeAt_reserve (byte : Nat) :
    (¬reservation.Contains byte →
      typeAt (map.step (reserve reservation)).2.regions byte = typeAt map.regions byte) ∧
    (Served map.regions reservation → reservation.Contains byte →
      typeAt (map.step (reserve reservation)).2.regions byte =
        some reservation.memoryType.toUInt32) := by
  rcases reserve_cases settled aligned room with
    ⟨notServed, unchanged⟩ | ⟨_, region, _, _, _, _, _, _, _, succeeded⟩
  · rw [unchanged]
    exact ⟨fun _ => rfl, fun served => absurd served notServed⟩
  · have requestEnd := aligned.top_eq
    have bounded : Bounded .allocateAddress (reservation.memoryLength / pageSize)
        reservation.memoryBaseAddress := by
      intro _
      rw [requestEnd]
      exact aligned.below
    have types : typeAt (map.step (reserve reservation)).2.regions byte =
        if Granted (map.allocate .allocateAddress reservation.memoryType
          (reservation.memoryLength / pageSize) reservation.memoryBaseAddress).1
          (reservation.memoryLength / pageSize) byte then
          some reservation.memoryType.toUInt32
        else typeAt map.regions byte :=
      (settled.laid.allocate bounded reservation.memoryType).types byte
    have granted : Granted (map.allocate .allocateAddress reservation.memoryType
        (reservation.memoryLength / pageSize) reservation.memoryBaseAddress).1
        (reservation.memoryLength / pageSize) byte ↔ reservation.Contains byte := by
      have status := congrArg Response.status succeeded
      have address := congrArg Response.address succeeded
      simp only [reserve, MemoryMap.step] at status address
      rw [Granted, status, address, requestEnd]
      simp [MemoryAllocation.Contains, MemoryAllocation.bottom]
    constructor
    · intro outside
      rw [types, if_neg (mt granted.mp outside)]
    · intro _ inside
      rw [types, if_pos (granted.mpr inside)]

theorem Served.reserve (served : Served map.regions later) (notEmpty : later.bottom < later.top)
    (apart : later.top ≤ reservation.bottom ∨ reservation.top ≤ later.bottom) :
    Served (map.step (reserve reservation)).2.regions later := by
  rcases reserve_cases settled aligned room with
    ⟨_, unchanged⟩ | ⟨before, region, after, pieces, regionsEqual, _, carved, _, cut, _⟩
  · rw [unchanged]
    exact served
  · rcases served with ⟨serving, member, serves⟩
    rw [Served, cut]
    rw [regionsEqual] at member
    rcases List.mem_append.mp member with earlier | rest
    · exact ⟨serving, by simp [earlier], serves⟩
    · rcases List.mem_cons.mp rest with equal | behind
      · subst equal
        rcases carved.serves notEmpty serves apart with ⟨piece, pieceMember, pieceServes⟩
        exact ⟨piece, by simp [pieceMember], pieceServes⟩
      · exact ⟨serving, by simp [behind], serves⟩

end

def NoneAcross (regions : List Region) (address : Nat) : Prop :=
  ∀ region ∈ regions, region.type = MemoryType.conventionalMemory.toUInt32 →
    ¬(region.bottom < address ∧ address < region.top)

section

variable (settled : Settled resources map.regions) (aligned : Aligned reservation)
  (room : map.regions.length + 2 ≤ maxAllocations)

include settled aligned room

theorem NoneAcross.reserve {address : Nat} (none : NoneAcross map.regions address) :
    NoneAcross (map.step (reserve reservation)).2.regions address := by
  rcases reserve_cases settled aligned room with
    ⟨_, unchanged⟩ | ⟨before, region, after, pieces, regionsEqual, serves, _, tiles, cut, _⟩
  · rw [unchanged]
    exact none
  · rw [regionsEqual] at none
    rw [cut]
    refine forall_mem_replaced none fun piece here free across => ?_
    have bounds := tiles.bounds (List.mem_map_of_mem here)
    rw [Region.span_lower, Region.span_upper] at bounds
    exact none region (by simp) serves.conventional ⟨by omega, by omega⟩

theorem noneAcross_reserve_empty (isEmpty : reservation.bottom = reservation.top) :
    NoneAcross (map.step (reserve reservation)).2.regions reservation.bottom := by
  rcases reserve_cases settled aligned room with
    ⟨notServed, unchanged⟩ | ⟨before, region, after, pieces, regionsEqual, serves, carved, _,
      cut, _⟩
  · rw [unchanged]
    intro region member free across
    exact notServed ⟨region, member, free, by omega, by omega⟩
  · -- The other regions end before this one or begin behind it.
    have laid : Laid (before ++ region :: after) := regionsEqual ▸ settled.laid
    have ordered := List.pairwise_append.mp laid.ordered
    have behind := (List.pairwise_cons.mp ordered.2.1).1
    have lower := serves.lower
    have upper := serves.upper
    rw [cut]
    intro piece member _ across
    rcases List.mem_append.mp member with earlier | later
    · rcases List.mem_append.mp earlier with earlier | here
      · have separated := ordered.2.2 piece.span (List.mem_map_of_mem earlier) region.span
          List.mem_cons_self
        rw [Region.span_upper, Region.span_lower] at separated
        omega
      · exact carved.not_across (Nat.le_of_eq isEmpty) here across
    · have separated := behind piece.span (List.mem_map_of_mem later)
      rw [Region.span_upper, Region.span_lower] at separated
      omega

end

/-! ## All reservations -/

section Run

variable {resources : List ResourceDescription} {map : MemoryMap}
  {pending : List MemoryAllocation}

section

variable (settled : Settled resources map.regions)
  (aligned : ∀ reservation ∈ pending, Aligned reservation)
  (room : map.regions.length + 2 * pending.length ≤ maxAllocations)

include settled aligned room

theorem Settled.run :
    Settled resources (map.run (pending.map Init.reserve)).regions ∧
      (map.run (pending.map Init.reserve)).regions.length ≤
        map.regions.length + 2 * pending.length := by
  induction pending generalizing map with
  | nil => exact ⟨settled, Nat.le_refl _⟩
  | cons reservation rest induction =>
    rw [List.length_cons] at room ⊢
    rcases settled.reserve (aligned reservation List.mem_cons_self) (by omega) with
      ⟨kept, grown⟩
    rcases induction kept (fun later member =>
        aligned later (List.mem_cons_of_mem _ member)) (by omega) with
      ⟨finalSettled, finalGrown⟩
    exact ⟨finalSettled, by rw [List.map_cons, MemoryMap.run_cons]; omega⟩

theorem NoneAcross.run {address : Nat} (none : NoneAcross map.regions address) :
    NoneAcross (map.run (pending.map Init.reserve)).regions address := by
  induction pending generalizing map with
  | nil => exact none
  | cons reservation rest induction =>
    rw [List.length_cons] at room
    have here := aligned reservation List.mem_cons_self
    rcases settled.reserve here (by omega) with ⟨kept, grown⟩
    rw [List.map_cons, MemoryMap.run_cons]
    exact induction kept (fun later member => aligned later (List.mem_cons_of_mem _ member))
      (by omega) (none.reserve settled here (by omega))

theorem typeAt_run_outside {byte : Nat}
    (outside : ∀ reservation ∈ pending, ¬reservation.Contains byte) :
    typeAt (map.run (pending.map reserve)).regions byte = typeAt map.regions byte := by
  induction pending generalizing map with
  | nil => rfl
  | cons reservation rest induction =>
    rw [List.length_cons] at room
    have here := aligned reservation List.mem_cons_self
    rcases settled.reserve here (by omega) with ⟨kept, grown⟩
    have later := induction kept (fun later member =>
        aligned later (List.mem_cons_of_mem _ member)) (by omega)
      (fun later member => outside later (List.mem_cons_of_mem _ member))
    rw [List.map_cons, MemoryMap.run_cons, later]
    exact (typeAt_reserve settled here (by omega) byte).1 (outside reservation List.mem_cons_self)

end

variable {reservation : MemoryAllocation}

theorem typeAt_run_served (settled : Settled resources map.regions)
    (aligned : ∀ reservation ∈ pending, Aligned reservation)
    (room : map.regions.length + 2 * pending.length ≤ maxAllocations)
    (served : ∀ reservation ∈ pending, reservation.bottom < reservation.top →
      Served map.regions reservation)
    (apart : pending.Pairwise fun earlier later => later.bottom < later.top →
      later.top ≤ earlier.bottom ∨ earlier.top ≤ later.bottom)
    (disjoint : pending.Pairwise fun left right =>
      ∀ byte, ¬(left.Contains byte ∧ right.Contains byte))
    (member : reservation ∈ pending) {byte : Nat} (inside : reservation.Contains byte) :
    typeAt (map.run (pending.map reserve)).regions byte = some reservation.memoryType.toUInt32 := by
  induction pending generalizing map with
  | nil => cases member
  | cons first rest induction =>
    rw [List.length_cons] at room
    have here := aligned first List.mem_cons_self
    have alignedRest := fun later member => aligned later (List.mem_cons_of_mem _ member)
    rcases settled.reserve here (by omega) with ⟨kept, grown⟩
    have apartParts := List.pairwise_cons.mp apart
    have disjointParts := List.pairwise_cons.mp disjoint
    rw [List.map_cons, MemoryMap.run_cons]
    rcases List.mem_cons.mp member with equal | later
    · subst equal
      have notEmpty : reservation.bottom < reservation.top := Nat.lt_of_le_of_lt inside.1 inside.2
      rw [typeAt_run_outside kept alignedRest (by omega) fun other otherMember contains =>
        disjointParts.1 other otherMember byte ⟨inside, contains⟩]
      exact (typeAt_reserve settled here (by omega) byte).2
        (served reservation List.mem_cons_self notEmpty) inside
    · apply induction kept alignedRest (by omega) _ apartParts.2 disjointParts.2 later
      intro other otherMember notEmpty
      exact (served other (List.mem_cons_of_mem _ otherMember) notEmpty).reserve settled here
        (by omega) notEmpty (apartParts.1 other otherMember notEmpty)

/-- A free byte of a reservation is no longer free at the end only if the
reservation is served when its turn comes, and not with conventional memory. -/
theorem served_of_typeAt_run {before after : List MemoryAllocation}
    (split : pending = before ++ reservation :: after)
    (settled : Settled resources map.regions)
    (aligned : ∀ reservation ∈ pending, Aligned reservation)
    (room : map.regions.length + 2 * pending.length ≤ maxAllocations)
    (disjoint : pending.Pairwise fun left right =>
      ∀ byte, ¬(left.Contains byte ∧ right.Contains byte))
    {byte : Nat} (inside : reservation.Contains byte)
    (free : typeAt map.regions byte = some MemoryType.conventionalMemory.toUInt32)
    (protected' : typeAt (map.run (pending.map reserve)).regions byte ≠
      some MemoryType.conventionalMemory.toUInt32) :
    reservation.memoryType ≠ .conventionalMemory ∧
      Served (map.run (before.map reserve)).regions reservation := by
  subst split
  rw [List.length_append, List.length_cons] at room
  have parts := List.pairwise_append.mp disjoint
  have alignedBefore := fun other member => aligned other (List.mem_append_left _ member)
  have here := aligned reservation (by simp)
  have alignedAfter : ∀ other ∈ after, Aligned other := fun other member =>
    aligned other (by simp [member])
  rcases settled.run alignedBefore (by omega) with ⟨settledBefore, grownBefore⟩
  rcases settledBefore.reserve here (by omega) with ⟨settledHere, grownHere⟩
  have freeBefore := typeAt_run_outside settled alignedBefore (by omega)
    fun other member contains =>
      parts.2.2 other member reservation List.mem_cons_self byte ⟨contains, inside⟩
  have keptAfter := typeAt_run_outside settledHere alignedAfter (by omega)
    fun other member contains =>
      (List.pairwise_cons.mp parts.2.1).1 other member byte ⟨inside, contains⟩
  rw [List.map_append, MemoryMap.run_append, List.map_cons, MemoryMap.run_cons, keptAfter]
    at protected'
  rw [free] at freeBefore
  have served : Served (map.run (before.map reserve)).regions reservation := by
    by_contra notServed
    rcases reserve_cases settledBefore here (by omega) with
      ⟨_, unchanged⟩ | ⟨_, region, _, _, regionsEqual, serves, _⟩
    · rw [unchanged, freeBefore] at protected'
      exact protected' rfl
    · exact notServed ⟨region, by simp [regionsEqual], serves⟩
  refine ⟨?_, served⟩
  intro conventional
  rw [(typeAt_reserve settledBefore here (by omega) byte).2 served inside, conventional]
    at protected'
  exact protected' rfl

end Run

/-! ## The system memory -/

theorem ValidHobs.aligned (valid : ValidHobs hobs) :
    ∀ reservation ∈ reservations hobs, Aligned reservation := fun reservation member =>
  ⟨(valid.reservationsAligned reservation member).1,
    (valid.reservationsAligned reservation member).2,
    valid.reservationsBelow reservation member⟩

theorem ValidHobs.top_initialRegion (valid : ValidHobs hobs)
    {resource : ResourceDescription} (member : resource ∈ systemResources hobs) :
    (initialRegion resource).top = resource.top := by
  have length := (valid.resourcesAligned resource member).2
  change resource.bottom + 4096 * (resource.resourceLength / pageSize).toNat =
    resource.bottom + resource.resourceLength.toNat
  rw [UInt64.toNat_div, pageSize_toNat]
  omega

theorem accepted_responses (map : MemoryMap) (initial : List InitialRegion)
    (room : map.regions.length + initial.length ≤ maxAllocations) :
    InitialRegion.accepted initial
      (map.responses (initial.map InitialRegion.operation)) = initial := by
  induction initial generalizing map with
  | nil => rfl
  | cons first rest induction =>
    rw [List.length_cons] at room
    rcases map.step_initial first with ⟨noRoom, _⟩ | ⟨succeeded, added⟩
    · rw [MemoryMap.room] at noRoom
      omega
    · rw [List.map_cons, MemoryMap.responses, InitialRegion.accepted, if_pos succeeded, induction]
      rw [added, List.length_append, List.length_singleton]
      omega

def memoryAfterResources (hobs : List Hob) : MemoryMap :=
  MemoryMap.empty.run (((systemResources hobs).map initialRegion).map InitialRegion.operation)

section Resources

variable {hobs : List Hob}

section

variable (valid : ValidHobs hobs)

include valid

theorem ValidHobs.regions : (memoryAfterResources hobs).regions =
      (systemResources hobs).map fun resource => (initialRegion resource).region := by
  have few := valid.few
  have fewResources : (systemResources hobs).length ≤ hobs.length := List.length_filterMap_le _ _
  rw [memoryAfterResources, MemoryMap.run_initial_regions, accepted_responses, List.map_map]
  · rfl
  · have capacity : maxAllocations = 32768 := rfl
    simp only [MemoryMap.empty, List.length_nil, List.length_map]
    omega

theorem ValidHobs.settled : Settled (systemResources hobs) (memoryAfterResources hobs).regions := by
  have inOrder : InitialRegion.InOrder ((systemResources hobs).map initialRegion) := by
    constructor
    · rw [List.pairwise_map]
      apply valid.resourcesInOrder.imp_of_mem
      intro left right leftMember _ ordered
      rw [valid.top_initialRegion leftMember]
      exact ordered
    · intro region member
      rcases List.mem_map.mp member with ⟨resource, resourceMember, equal⟩
      rw [← equal, valid.top_initialRegion resourceMember]
      exact valid.resourcesBelow resource resourceMember
  refine ⟨inOrder.laid_run, ?_, ?_⟩
  · intro region member
    rw [valid.regions] at member
    rcases List.mem_map.mp member with ⟨resource, resourceMember, equal⟩
    rw [← equal]
    exact (valid.resourcesAligned resource resourceMember).1
  · intro region member
    rw [valid.regions] at member
    rcases List.mem_map.mp member with ⟨resource, resourceMember, equal⟩
    refine ⟨resource, resourceMember, ?_, ?_⟩
    · rw [← equal]
      exact Nat.le_refl _
    · rw [← equal, InitialRegion.top_region, valid.top_initialRegion resourceMember]

theorem ValidHobs.room :
    (memoryAfterResources hobs).regions.length + 2 * (reservations hobs).length ≤
      maxAllocations := by
  have few := valid.few
  have fewResources : (systemResources hobs).length ≤ hobs.length := List.length_filterMap_le _ _
  have fewReservations : (reservations hobs).length ≤ hobs.length := List.length_filterMap_le _ _
  have capacity : maxAllocations = 32768 := rfl
  rw [valid.regions, List.length_map]
  omega

theorem ValidHobs.serves {resource : ResourceDescription} (member : resource ∈ systemResources hobs)
    {lower upper : Nat} (above : resource.bottom ≤ lower) (under : upper ≤ resource.top) :
    ∃ region ∈ (memoryAfterResources hobs).regions, region.Serves lower upper := by
  rw [valid.regions]
  refine ⟨_, List.mem_map_of_mem member, rfl, above, ?_⟩
  rw [InitialRegion.top_region, valid.top_initialRegion member]
  exact under

theorem ValidHobs.free {reservation : MemoryAllocation} (member : reservation ∈ reservations hobs)
    {byte : Nat} (inside : reservation.Contains byte) :
    typeAt (memoryAfterResources hobs).regions byte =
      some MemoryType.conventionalMemory.toUInt32 := by
  rcases valid.reservationsInMemory reservation member byte inside with
    ⟨resource, resourceMember, contains⟩
  rcases valid.serves resourceMember contains.1 (Nat.succ_le_of_lt contains.2) with
    ⟨region, regionMember, serves⟩
  rw [valid.settled.laid.typeAt_of_mem regionMember ⟨serves.lower, serves.upper⟩,
    serves.conventional]

end

variable {before : List MemoryAllocation}

theorem ValidHobs.settledBefore (valid : ValidHobs hobs) {after : List MemoryAllocation}
    (split : reservations hobs = before ++ after) :
    Settled (systemResources hobs)
        ((memoryAfterResources hobs).run (before.map reserve)).regions ∧
      ((memoryAfterResources hobs).run (before.map reserve)).regions.length +
        2 * after.length ≤ maxAllocations := by
  have room := valid.room
  have aligned : ∀ reservation ∈ before, Aligned reservation := fun reservation member =>
    valid.aligned reservation (by simp [split, member])
  rw [split, List.length_append] at room
  rcases valid.settled.run aligned (by omega) with ⟨settled, grown⟩
  exact ⟨settled, by omega⟩

theorem ValidHobs.noneAcross (valid : ValidHobs hobs)
    {after : List MemoryAllocation} {isEmpty : MemoryAllocation}
    (split : reservations hobs = before ++ after) (member : isEmpty ∈ before)
    (empty : isEmpty.bottom = isEmpty.top) :
    NoneAcross ((memoryAfterResources hobs).run (before.map reserve)).regions
      isEmpty.bottom := by
  rcases List.append_of_mem member with ⟨first, second, splitBefore⟩
  rw [splitBefore, List.append_assoc, List.cons_append] at split
  rcases valid.settledBefore split with ⟨settled, room⟩
  rw [List.length_cons, List.length_append] at room
  have aligned : ∀ reservation ∈ isEmpty :: second, Aligned reservation :=
    fun reservation member => valid.aligned reservation (by
      rw [split]
      simp only [List.mem_append, List.mem_cons] at member ⊢
      tauto)
  have here := aligned isEmpty List.mem_cons_self
  rcases settled.reserve here (by omega) with ⟨kept, grown⟩
  rw [splitBefore, List.map_append, MemoryMap.run_append, List.map_cons, MemoryMap.run_cons]
  exact (noneAcross_reserve_empty settled here (by omega) empty).run kept
    (fun reservation member => aligned reservation (List.mem_cons_of_mem _ member)) (by omega)

end Resources

theorem apart_of_disjoint {earlier : MemoryAllocation}
    (disjoint : ∀ byte, ¬(earlier.Contains byte ∧ later.Contains byte))
    (notInside : earlier.bottom = earlier.top →
      ¬(later.bottom < earlier.bottom ∧ earlier.bottom < later.top))
    (notEmpty : later.bottom < later.top) :
    later.top ≤ earlier.bottom ∨ earlier.top ≤ later.bottom := by
  have ordered : earlier.bottom ≤ earlier.top := Nat.le_add_right _ _
  have atEarlier := disjoint earlier.bottom
  have atLater := disjoint later.bottom
  simp only [MemoryAllocation.Contains] at atEarlier atLater
  omega

/-! ## Protection -/

def memoryAfterHobs (hobs : List Hob) : MemoryMap :=
  (memoryAfterResources hobs).run ((reservations hobs).map reserve)

def ReservationsTaken (hobs : List Hob) (regions : List Region) : Prop :=
  ∀ reservation ∈ reservations hobs, ∀ byte, reservation.Contains byte →
    typeAt regions byte ≠ some MemoryType.conventionalMemory.toUInt32

theorem reservationsTaken_iff (valid : ValidHobs hobs) :
    ReservationsTaken hobs (memoryAfterHobs hobs).regions ↔ Reservable hobs := by
  constructor
  · intro taken
    have necessary : ∀ before reservation after,
        reservations hobs = before ++ reservation :: after →
        reservation.bottom < reservation.top →
        reservation.memoryType ≠ .conventionalMemory ∧
          Served ((memoryAfterResources hobs).run (before.map reserve)).regions
            reservation := by
      intro before reservation after split notEmpty
      have member : reservation ∈ reservations hobs := by simp [split]
      have inside : reservation.Contains reservation.bottom := ⟨Nat.le_refl _, notEmpty⟩
      exact served_of_typeAt_run split valid.settled valid.aligned valid.room
        valid.reservationsDisjoint inside (valid.free member inside)
        (taken reservation member _ inside)
    refine ⟨?_, ?_, ?_⟩
    · intro reservation member notEmpty
      rcases List.append_of_mem member with ⟨before, after, split⟩
      exact (necessary before reservation after split notEmpty).1
    · intro reservation member notEmpty
      rcases List.append_of_mem member with ⟨before, after, split⟩
      rcases (necessary before reservation after split notEmpty).2 with
        ⟨region, regionMember, serves⟩
      rcases (valid.settledBefore split).1.inside region regionMember with
        ⟨resource, resourceMember, above, under⟩
      exact ⟨resource, resourceMember, Nat.le_trans above serves.lower,
        Nat.le_trans serves.upper under⟩
    · apply Selection.pairwise_of_split
      intro before later after split earlier member isEmpty strictly
      rcases (necessary before later after split (by omega)).2 with
        ⟨region, regionMember, serves⟩
      have lower := serves.lower
      have upper := serves.upper
      exact valid.noneAcross split member isEmpty region regionMember serves.conventional
        ⟨by omega, by omega⟩
  · intro reservable reservation member byte inside
    have notEmpty : reservation.bottom < reservation.top := Nat.lt_of_le_of_lt inside.1 inside.2
    have served : ∀ reservation ∈ reservations hobs,
        reservation.bottom < reservation.top →
        Served (memoryAfterResources hobs).regions reservation := by
      intro other otherMember otherNotEmpty
      rcases reservable.inOneResource other otherMember otherNotEmpty with
        ⟨resource, resourceMember, above, under⟩
      exact valid.serves resourceMember above under
    have apart : (reservations hobs).Pairwise fun earlier later =>
        later.bottom < later.top → later.top ≤ earlier.bottom ∨ earlier.top ≤ later.bottom := by
      apply (valid.reservationsDisjoint.and reservable.notSplit).imp
      intro earlier later both laterNotEmpty
      exact apart_of_disjoint both.1 both.2 laterNotEmpty
    rw [memoryAfterHobs, typeAt_run_served valid.settled valid.aligned valid.room served apart
      valid.reservationsDisjoint member inside]
    intro equal
    exact reservable.notConventional reservation member notEmpty
      (MemoryType.toUInt32_injective (Option.some.inj equal))

def SearchCall : Operation → Prop
  | .allocatePages .allocateAnyPages .. | .allocatePages .allocateMaxAddress .. => True
  | _ => False

def Grants : Operation → Response → Nat → Prop
  | .allocatePages _ _ pageCount _, response, byte =>
    Granted (response.status, response.address) pageCount byte
  | _, _, _ => False

/-- The platform's reservations are safe: after `initialize_memory` none of their
bytes is conventional memory, and no sequence of calls that search for memory is
given one of them. -/
def HobsProtected (fuel : Nat) (memory : ByteMemory) (hob : UInt64) (hobs : List Hob) :
    Prop :=
  ∃ allocator, initializeMemory fuel memory hob Allocator.new = .ok allocator ∧
    allocator.Reports (ReservationsTaken hobs) ∧
    ∀ calls, (∀ call ∈ calls, SearchCall call) →
      ∃ responses final, run allocator calls = .ok (responses, final) ∧
        ∀ reservation ∈ reservations hobs, ∀ byte, reservation.Contains byte →
          ∀ outcome ∈ calls.zip responses, ¬Grants outcome.1 outcome.2 byte

theorem search_step (laid : Laid map.regions) {call : Operation}
    (search : SearchCall call) {byte : Nat}
    (taken : typeAt map.regions byte ≠ some MemoryType.conventionalMemory.toUInt32) :
    Laid (map.step call).2.regions ∧ ¬Grants call (map.step call).1 byte ∧
      typeAt (map.step call).2.regions byte ≠ some MemoryType.conventionalMemory.toUInt32 := by
  cases call with
  | addInitialAllocation => cases search
  | freePages => cases search
  | updateVirtualAddresses => cases search
  | allocatePages allocateType memoryType pageCount address =>
    have bounded : Bounded allocateType pageCount address := by
      intro isAddress
      rw [isAddress] at search
      cases search
    rcases laid.allocate bounded memoryType with ⟨kept, wereFree, types⟩
    have notGranted : ¬Granted
        (map.allocate allocateType memoryType pageCount address).1 pageCount byte :=
      fun granted => taken (wereFree byte granted)
    refine ⟨kept, notGranted, ?_⟩
    have unchanged := types byte
    rw [if_neg notGranted] at unchanged
    exact fun conventional => taken (unchanged.symm.trans conventional)

theorem search_run (laid : Laid map.regions) {calls : List Operation}
    (search : ∀ call ∈ calls, SearchCall call) {byte : Nat}
    (taken : typeAt map.regions byte ≠ some MemoryType.conventionalMemory.toUInt32) :
    ∀ outcome ∈ calls.zip (map.responses calls), ¬Grants outcome.1 outcome.2 byte := by
  induction calls generalizing map with
  | nil => simp
  | cons call rest induction =>
    rcases search_step laid (search call List.mem_cons_self) taken with
      ⟨kept, notGranted, stillTaken⟩
    intro outcome member
    rcases List.mem_cons.mp member with equal | later
    · rw [equal]
      exact notGranted
    · exact induction kept (fun later member => search later (List.mem_cons_of_mem _ member))
        stillTaken outcome later

theorem initializeMemory_represents {fuel : Nat} {memory : ByteMemory} {hob : UInt64}
    (listed : hobList memory fuel hob = .ok hobs) :
    ∃ allocator, initializeMemory fuel memory hob Allocator.new = .ok allocator ∧
      allocator.Represents (memoryAfterHobs hobs) := by
  rcases run_represents Allocator.new_represents
      (((systemResources hobs).map initialRegion).map InitialRegion.operation) with
    ⟨middle, ranFirst, middleRepresents⟩
  rcases run_represents middleRepresents ((reservations hobs).map reserve) with
    ⟨final, ranSecond, represents⟩
  exact ⟨final, initializeMemory_eq listed ranFirst ranSecond, represents⟩

theorem HobsProtected.taken {fuel : Nat} {memory : ByteMemory} {hob : UInt64}
    (safe : HobsProtected fuel memory hob hobs)
    (listed : hobList memory fuel hob = .ok hobs) :
    ReservationsTaken hobs (memoryAfterHobs hobs).regions := by
  rcases initializeMemory_represents listed with ⟨_, initialized, represents⟩
  rcases safe with ⟨allocator, initialized', taken, _⟩
  rw [initialized] at initialized'
  cases initialized'
  exact (represents.reports_iff _).mp taken

/-- Reservations are protected exactly when each of them can be made. -/
theorem hobsProtected_iff_reservable {fuel : Nat} {memory : ByteMemory} {hob : UInt64}
    {hobs : List Hob} (listed : hobList memory fuel hob = .ok hobs)
    (valid : ValidHobs hobs) :
    HobsProtected fuel memory hob hobs ↔ Reservable hobs := by
  rcases initializeMemory_represents listed with ⟨allocator, initialized, represents⟩
  rw [← reservationsTaken_iff valid]
  constructor
  · intro safe
    exact safe.taken listed
  · intro taken
    refine ⟨allocator, initialized, (represents.reports_iff _).mpr taken, ?_⟩
    intro calls search
    rcases run_represents represents calls with ⟨final, ran, _⟩
    have laid := (valid.settled.run valid.aligned valid.room).1.laid
    exact ⟨_, final, ran, fun reservation member byte inside =>
      search_run laid search (taken reservation member byte inside)⟩

/-- A list with one resource and one reservation in it. -/
def oneResource : List Hob :=
  [.resourceDescriptor ⟨0, 0x200000, 0x100000⟩,
    .memoryAllocation ⟨0x280000, 0x2000, .bootServicesData⟩]

theorem hobsProtected_iff_reservable_one_resource :
    HobsProtected 10000
        (.ofWords [0x300003, 0, 0, 0, 0x200000, 0x100000,
          0x300002, 0, 0, 0x280000, 0x2000, 4, 0x8ffff]) 0 oneResource ↔
      Reservable oneResource := by
  have length : oneResource.length = 2 := rfl
  have resources : systemResources oneResource = [⟨0, 0x200000, 0x100000⟩] := rfl
  have reserved : reservations oneResource = [⟨0x280000, 0x2000, .bootServicesData⟩] := rfl
  apply hobsProtected_iff_reservable
  · decide
  · constructor <;>
      simp [length, resources, reserved, ResourceDescription.Contains, ResourceDescription.top,
        ResourceDescription.bottom, MemoryAllocation.Contains, MemoryAllocation.top,
        MemoryAllocation.bottom]
    intro byte
    omega

/-- A reservation across the border of two adjacent resources. -/
def acrossResources : List Hob :=
  [.resourceDescriptor ⟨0, 0x200000, 0x100000⟩, .resourceDescriptor ⟨0, 0x300000, 0x100000⟩,
    .memoryAllocation ⟨0x2ff000, 0x2000, .bootServicesData⟩]

def acrossWords : ByteMemory :=
  .ofWords [0x300003, 0, 0, 0, 0x200000, 0x100000, 0x300003, 0, 0, 0, 0x300000, 0x100000,
    0x300002, 0, 0, 0x2ff000, 0x2000, 4, 0x8ffff]

/-- No descriptor contains the reservation, the call fails, and its pages stay free. -/
theorem not_hobsProtected_across_resources :
    hobList acrossWords 10000 0 = .ok acrossResources ∧ ValidHobs acrossResources ∧
      ¬HobsProtected 10000 acrossWords 0 acrossResources := by
  have length : acrossResources.length = 3 := rfl
  have resources : systemResources acrossResources =
      [⟨0, 0x200000, 0x100000⟩, ⟨0, 0x300000, 0x100000⟩] := rfl
  have reserved : reservations acrossResources = [⟨0x2ff000, 0x2000, .bootServicesData⟩] := rfl
  have listed : hobList acrossWords 10000 0 = .ok acrossResources := by decide
  refine ⟨listed, ?_, ?_⟩
  · constructor <;>
      simp [length, resources, reserved, ResourceDescription.Contains, ResourceDescription.top,
        ResourceDescription.bottom, MemoryAllocation.Contains, MemoryAllocation.top,
        MemoryAllocation.bottom]
    intro byte
    omega
  · intro safe
    have taken := safe.taken listed ⟨0x2ff000, 0x2000, .bootServicesData⟩ (by rw [reserved]; simp)
      0x300000 (by simp [MemoryAllocation.Contains, MemoryAllocation.top,
        MemoryAllocation.bottom])
    exact absurd taken (by decide)

end HypervisorFirmware.Init
