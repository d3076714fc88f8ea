import Mathlib.Data.List.TakeWhile
import HypervisorFirmware.Fat.Threads

/-! # Volumes for given paths

For every path whose components can be long names there is a volume with a row of
directories under these names, on which no path with another route has its result. -/

namespace HypervisorFirmware.Fat

/-- A name that a long name can have: every character is one unit, and none of them ends
the name. -/
structure Storable (name : List Char) : Prop where
  short : name.length < efiPathStringLength
  units : ∀ character ∈ name, character.toNat < 0x10000 ∧ EfiStr.unit character &&& 0xff ≠ 0

/-! ## Entries -/

def linkRecord (cluster : UInt16) : Record :=
  #v[0xff, 32, 32, 32, 32, 32, 32, 32, 32, 32, 32, 0x10, 0, 0, 0, 0, 0, 0, 0, 0, 0, 0, 0, 0, 0, 0,
    unitByte cluster 0, unitByte cluster 1, 0, 0, 0, 0]

def longNameOf (name : List Char) : LongName :=
  Vector.ofFn fun index => (name.map EfiStr.unit).getD index.val 0

def linkEntry (cluster : UInt16) (name : List Char) : DirectoryEntry :=
  (linkRecord cluster).entry (longNameOf name)

theorem linkRecord_isEntry (cluster : UInt16) : (linkRecord cluster).IsEntry := by
  refine ⟨?_, ?_, ?_⟩
  · exact (by decide : (0xff : UInt8) ≠ 0)
  · exact (by decide : (0xff : UInt8) ≠ 0xe5)
  · exact (by decide : (0x10 : UInt8) ≠ 0x0f)

theorem linkEntry_fileType (cluster : UInt16) (name : List Char) :
    (linkEntry cluster name).fileType = .directory :=
  if_pos (by decide : (0x10 : UInt8) &&& 0x10 = 0x10)

theorem linkEntry_attr (cluster : UInt16) (name : List Char) :
    (linkEntry cluster name).attr = 0x10 := rfl

theorem linkEntry_cluster (cluster : UInt16) (name : List Char) :
    (linkEntry cluster name).cluster = cluster.toUInt32 := by
  have low : (linkRecord cluster).bytes.readUInt16 26 = cluster := by
    have value := ByteMemory.readNat_of_bytes (linkRecord cluster).bytes 26 cluster.toNat 2 (by
      intro index inside
      match index, inside with
      | 0, _ => rfl
      | 1, _ => rfl)
    have bound := cluster.toNat_lt
    rw [ByteMemory.readUInt16, value, Nat.mod_eq_of_lt (by omega), UInt16.ofNat_toNat]
  have high : (linkRecord cluster).bytes.readUInt16 20 = 0 := rfl
  rw [linkEntry, Record.entry]
  simp only [low, high]
  simp

theorem compareShortName_link (other : List Char) (cluster : UInt16) (name : List Char) :
    compareShortName other (linkEntry cluster name) = false := by
  have named : (linkEntry cluster name).name = getShortName (0xff :: List.replicate 10 32) := rfl
  have short : (getShortName (0xff :: List.replicate 10 32)).toList.takeWhile (· ≠ 0) = [0xff] := by
    decide +kernel
  rw [compareShortName, named, short, beq_eq_false_iff_ne]
  intro same
  have decoded : ByteArray.utf8Decode? [0xff].toByteArray =
      ByteArray.utf8Decode? other.utf8Encode :=
    congrArg (fun bytes => ByteArray.utf8Decode? bytes.toByteArray) same
  rw [List.utf8Decode?_utf8Encode] at decoded
  cases decoded

variable {name path : List Char}

theorem toList_longNameOf (short : name.length < efiPathStringLength) : (longNameOf name).toList =
      name.map EfiStr.unit ++ List.replicate (efiPathStringLength - name.length) 0 := by
  have same : (longNameOf name).toList = List.ofFn fun index : Fin efiPathStringLength =>
      (name.map EfiStr.unit).getD index.val 0 := Vector.toList_ofFn
  rw [same]
  apply List.ext_getElem
  · rw [List.length_ofFn, List.length_append, List.length_map, List.length_replicate]
    omega
  · intro index inside _
    rw [List.getElem_ofFn, List.getElem_append]
    split
    · rename_i within
      rw [List.getD_eq_getElem _ _ within]
    · rename_i beyond
      rw [List.getD_eq_default _ _ (Nat.le_of_not_lt beyond), List.getElem_replicate]

theorem fromU16SliceWithNul_longNameOf (storable : Storable name) :
    EfiStr.OsStr.fromU16SliceWithNul (longNameOf name).toList = .ok (name.map EfiStr.unit) := by
  have padding : efiPathStringLength - name.length =
      (efiPathStringLength - name.length - 1) + 1 := by
    have short := storable.short
    omega
  have seen : ∀ unit ∈ name.map EfiStr.unit, decide (unit &&& 0xff ≠ 0) = true := by
    intro unit member
    obtain ⟨character, inside, rfl⟩ := List.mem_map.mp member
    exact decide_eq_true (storable.units character inside).2
  rw [toList_longNameOf storable.short, padding, List.replicate_succ,
    EfiStr.OsStr.fromU16SliceWithNul_eq ⟨0, by simp, rfl⟩, EfiStr.OsStr.beforeLowNul,
    List.takeWhile_append_of_pos seen]
  simp

theorem compareName_link (storable : Storable name) (other : List Char)
    (cluster : UInt16) : compareName other (linkEntry cluster name) = .ok (other = name) := by
  have sliced : EfiStr.OsStr.fromU16SliceWithNul (linkEntry cluster name).longName.toList =
      .ok (name.map EfiStr.unit) := fromU16SliceWithNul_longNameOf storable
  have numbers : (name.map EfiStr.unit).map UInt16.toNat = name.map Char.toNat := by
    rw [List.map_map]
    apply List.map_congr_left
    intro character member
    exact EfiStr.unit_toNat (storable.units character member).1
  rw [compareName_of_slice sliced, compareShortName_link, Bool.false_or, numbers]
  by_cases same : other = name
  · simp [same]
  · rw [decide_eq_false same, Except.ok.injEq, beq_eq_false_iff_ne]
    exact fun equal => same (List.map_injective_iff.mpr (fun _ _ => Char.toNat_inj.mp) equal).symm

/-! ## The volume -/

namespace PathImage

def volume (rootCluster : UInt32) : Volume where
  start := 0
  last := 2000
  bytesPerSector := 512
  fatType := .fat32
  sectorsPerCluster := 2
  firstFatSector := 3000
  firstDataSector := 0
  rootDirSectors := 0
  rootCluster := rootCluster

def records (names : List (List Char)) (cluster : Nat) : List Record :=
  if cluster < 3 then []
  else
    match names[cluster - 3]? with
    | none => []
    | some name => DirectoryImage.named (linkRecord (UInt16.ofNat (cluster + 1))) (longNameOf name)

def content (names : List (List Char)) (sector : UInt64) : Sector :=
  Sector.ofRecords ((records names (sector.toNat / 2 + 2)).drop (16 * (sector.toNat % 2)))

variable {names : List (List Char)} {rootCluster cluster : UInt32} {fuel : Nat}

theorem length_records (names : List (List Char)) (cluster : Nat) :
    (records names cluster).length < 32 := by
  rw [records]
  split_ifs
  · decide
  · split
    · decide
    · exact DirectoryImage.length_named _ _

theorem inSequence_records (names : List (List Char)) (cluster : Nat) :
    ∀ record ∈ records names cluster, record.InSequence := by
  intro record member
  rw [records] at member
  split_ifs at member
  · cases member
  · split at member
    · cases member
    · exact DirectoryImage.inSequence_named (linkRecord_isEntry _) _ record member

theorem scanRecords_endMark (ending other : Exec Error) (longEntry : LongName)
    (records more : List Record) :
    scanRecords ending longEntry (records ++ endMark :: more) =
      scanRecords other longEntry (records ++ endMark :: more) := by
  induction records generalizing longEntry with
  | nil => rfl
  | cons record rest induction =>
    rw [List.cons_append, scanRecords, scanRecords]
    split_ifs
    · rfl
    · exact induction _
    · rfl
    · exact induction _
    · rw [induction]

theorem nextCluster_beyond (device : SectorDevice Unit) (cluster : UInt32) :
    (volume rootCluster).toFilesystem.nextCluster device cluster () =
      .ok (.error .blockError, ()) := by
  have beyond : (volume rootCluster).start +
      ((volume rootCluster).firstFatSector +
        cluster * 4 / (volume rootCluster).bytesPerSector).toUInt64 >
      (volume rootCluster).last := by
    have bound := (cluster * 4).toNat_lt
    change (2000 : UInt64) < 0 + (3000 + cluster * 4 / 512).toUInt64
    rw [UInt64.lt_iff_toNat_lt, UInt64.toNat_add, UInt32.toNat_toUInt64, UInt32.toNat_add,
      UInt32.toNat_div]
    simp only [UInt64.reduceToNat, UInt32.reduceToNat]
    omega
  rw [Filesystem.nextCluster]
  change (volume rootCluster).toFilesystem.lookupFat device (cluster * 4) Filesystem.decode32 () = _
  have nonzero : ¬(volume rootCluster).bytesPerSector = 0 := (by decide : ¬(512 : UInt32) = 0)
  rw [Filesystem.lookupFat, if_neg nonzero]
  simp only [Filesystem.read, if_pos beyond]

theorem sector_toNat (inside : 2 ≤ cluster.toNat ∧ cluster.toNat < 500) {index : Nat}
    (small : index < 2) :
    ((volume rootCluster).start +
      (UInt32.ofNat index + (volume rootCluster).firstSectorOfCluster cluster).toUInt64).toNat =
      2 * (cluster.toNat - 2) + index := by
  change (0 + (UInt32.ofNat index + ((cluster - 2) * 2 + 0)).toUInt64).toNat = _
  have above : (2 : UInt32) ≤ cluster := UInt32.le_iff_toNat_le.mpr inside.1
  rw [UInt64.toNat_add, UInt32.toNat_toUInt64, UInt32.toNat_add, UInt32.toNat_add,
    UInt32.toNat_mul, UInt32.toNat_sub_of_le _ _ above, UInt32.toNat_ofNat']
  simp only [UInt64.reduceToNat, UInt32.reduceToNat]
  omega

section

variable (names : List (List Char))

theorem content_sector (rootCluster : UInt32) (inside : 2 ≤ cluster.toNat ∧ cluster.toNat < 500)
    {index : Nat} (small : index < 2) :
    content names ((volume rootCluster).start +
      (UInt32.ofNat index + (volume rootCluster).firstSectorOfCluster cluster).toUInt64) =
      Sector.ofRecords ((records names cluster.toNat).drop (16 * index)) := by
  have directory : (2 * (cluster.toNat - 2) + index) / 2 + 2 = cluster.toNat := by omega
  have sector : (2 * (cluster.toNat - 2) + index) % 2 = index := by omega
  rw [content, sector_toNat inside small, directory, sector]

theorem lists (rootCluster : UInt32) (inside : 2 ≤ cluster.toNat ∧ cluster.toNat < 500)
    (enough : 2 < fuel) :
    (getDirectory cluster).Lists (volume rootCluster).toFilesystem (.reliable (content names)) fuel
      ⟨flatScan emptyName (records names cluster.toNat), .ok .endOfFile⟩ := by
  have readable : ∀ index < (volume rootCluster).sectorsPerCluster.toNat,
      (volume rootCluster).start +
        (UInt32.ofNat index + (volume rootCluster).firstSectorOfCluster cluster).toUInt64 ≤
      (volume rootCluster).last := by
    intro index small
    rw [UInt64.le_iff_toNat_le, sector_toNat inside small]
    change 2 * (cluster.toNat - 2) + index ≤ 2000
    have bound : index < 2 := small
    omega
  have ended : SectorsFrom (volume rootCluster).toFilesystem (.reliable (content names)) cluster
      (volume rootCluster).sectorsPerCluster [] (.ok .blockError) :=
    .ended (UInt32.le_refl _) (nextCluster_beyond _ cluster)
  have sectors := ended.cluster readable 2 0 rfl
  refine ⟨cluster, _, _, rfl, sectors, ?_, Nat.zero_le _, fun _ => rfl, ?_⟩
  · simpa [directorySectors, volume] using enough
  · have two : directorySectors (volume rootCluster).toFilesystem (content names) cluster =
        [Sector.ofRecords (records names cluster.toNat),
          Sector.ofRecords ((records names cluster.toNat).drop 16)] := by
      have first := content_sector names rootCluster inside Nat.zero_lt_two
      have second := content_sector names rootCluster inside Nat.one_lt_two
      exact congrArg₂ (fun first second => [first, second]) first second
    have listed : [Sector.ofRecords (records names cluster.toNat),
        Sector.ofRecords ((records names cluster.toNat).drop 16)].flatMap Sector.records =
        records names cluster.toNat ++ endMark ::
          List.replicate (31 - (records names cluster.toNat).length) endMark := by
      rw [List.flatMap_cons, List.flatMap_singleton]
      exact Sector.records_two (length_records names cluster.toNat)
    have offset : (getDirectory cluster).offset = 0 := rfl
    rw [List.drop_zero, List.append_nil, two, listed, offset, List.drop_zero,
      scanRecords_endMark _ (.ok .endOfFile),
      scanRecords_eq_flatScan (inSequence_endMarks (inSequence_records names _) _),
      DirectoryImage.flatScan_endMarks]

def listing (cluster : UInt32) : Listing :=
  ⟨flatScan emptyName (records names cluster.toNat), .ok .endOfFile⟩

theorem records_link {cluster : Nat} (beyond : ¬cluster < 3) {name : List Char}
    (named : names[cluster - 3]? = some name) :
    flatScan emptyName (records names cluster) = [linkEntry (UInt16.ofNat (cluster + 1)) name] := by
  rw [records, if_neg beyond, named]
  exact DirectoryImage.flatScan_named (linkRecord_isEntry _) _

theorem records_empty {cluster : Nat} (nothing : cluster < 3 ∨ names[cluster - 3]? = none) :
    flatScan emptyName (records names cluster) = [] := by
  rw [records]
  rcases nothing with below | none
  · rw [if_pos below]
    rfl
  · rw [none]
    split_ifs
    · rfl
    · rfl

end

theorem link_toNat {number : Nat} (small : number < 500) (name : List Char) :
    (linkEntry (UInt16.ofNat number) name).cluster = UInt32.ofNat number := by
  rw [linkEntry_cluster, ← UInt32.toNat_inj, UInt16.toNat_toUInt32, UInt16.toNat_ofNat',
    UInt32.toNat_ofNat']
  omega

theorem link_inside (few : names.length < 400) {entry : DirectoryEntry}
    (member : entry ∈ flatScan emptyName (records names cluster.toNat)) :
    2 ≤ entry.cluster.toNat ∧ entry.cluster.toNat < 500 := by
  by_cases below : cluster.toNat < 3
  · rw [records_empty names (.inl below)] at member
    cases member
  · cases named : names[cluster.toNat - 3]? with
    | none =>
      rw [records_empty names (.inr named)] at member
      cases member
    | some name =>
      obtain ⟨bound, _⟩ := List.getElem?_eq_some_iff.mp named
      rw [records_link names below named, List.mem_singleton] at member
      rw [member, link_toNat (by omega), UInt32.toNat_ofNat']
      omega

def tree (names : List (List Char)) (few : names.length < 400)
    (rootInside : 2 ≤ rootCluster.toNat ∧ rootCluster.toNat < 500) (fuel : Nat)
    (enough : 32 < fuel) : Tree (volume rootCluster) (.reliable (content names)) fuel where
  fat32 := rfl
  positive := (by decide : (0 : UInt32) < 2)
  listing := listing names
  IsDirectory cluster := 2 ≤ cluster.toNat ∧ cluster.toNat < 500
  root := rootInside
  lists cluster inside := lists names rootCluster inside (by omega)
  short cluster inside := Nat.lt_of_le_of_lt (DirectoryImage.length_flatScan_le _ _)
    (Nat.lt_trans (length_records names cluster.toNat) enough)
  closed _ _ _ member _ _ := link_inside few member

theorem search_empty (nothing : cluster.toNat < 3 ∨ names[cluster.toNat - 3]? = none)
    (name : List Char) : (listing names cluster).search name = .ok (.error .endOfFile) := by
  rw [listing, records_empty names nothing]
  rfl

theorem search_link (beyond : ¬cluster.toNat < 3) {name : List Char} (storable : Storable name)
    (named : names[cluster.toNat - 3]? = some name) (other : List Char) :
    (listing names cluster).search other =
      if other = name then .ok (.ok (linkEntry (UInt16.ofNat (cluster.toNat + 1)) name))
      else .ok (.error .endOfFile) := by
  rw [listing, records_link names beyond named, Listing.search]
  simp only [searchEntries, compareName_link storable]
  by_cases same : other = name
  · simp [same]
  · simp [same]

theorem thread (storable : ∀ name ∈ names, Storable name) (nonempty : ∀ name ∈ names, name ≠ [])
    (few : names.length < 400) (rootInside : 2 ≤ rootCluster.toNat ∧ rootCluster.toNat < 500)
    (enough : 32 < fuel) {above : DirectoryEntry} (other : above.attr ≠ 0x10)
    {done rest : List (List Char)} (split : names = done ++ rest) {place : Place}
    (number : place.cluster.toNat = 3 + done.length) :
    ∃ last, last.cluster.toNat = 3 + names.length ∧
      Thread (volume rootCluster) (tree names few rootInside fuel enough).listing above place rest
        last := by
  induction rest generalizing done place with
  | nil =>
    rw [List.append_nil] at split
    refine ⟨place, by rw [number, split], .ended fun name => ?_⟩
    have nothing : names[place.cluster.toNat - 3]? = none := by
      rw [number, split]
      simp
    exact search_empty (.inr nothing) name
  | cons name rest induction =>
    have found : names[place.cluster.toNat - 3]? = some name := by
      rw [number, split]
      simp
    have member : name ∈ names := by
      rw [split]
      simp
    have size : names.length = done.length + (rest.length + 1) := by
      rw [split, List.length_append, List.length_cons]
    let entry := linkEntry (UInt16.ofNat (place.cluster.toNat + 1)) name
    have next : entry.cluster.toNat = 3 + (done ++ [name]).length := by
      rw [link_toNat (by omega), UInt32.toNat_ofNat', List.length_append, List.length_singleton]
      omega
    obtain ⟨last, ending, later⟩ := @induction (done ++ [name]) (by simpa using split)
      ⟨entry.cluster, entry, some place.entry⟩ next
    have searched : ∀ other, (listing names place.cluster).search other =
        if other = name then .ok (.ok entry) else .ok (.error .endOfFile) :=
      search_link (by omega) (storable name member) found
    have nonzero : entry.cluster ≠ 0 := by
      intro zero
      rw [zero, UInt32.toNat_zero] at next
      omega
    have different : entry ≠ above := by
      rintro rfl
      exact other (linkEntry_attr _ name)
    have apart : place.cluster ≠ last.cluster := by
      intro same
      rw [same, ending] at number
      omega
    exact ⟨last, ending, .step searched (nonempty name member) (linkEntry_fileType _ name)
      nonzero different apart later⟩

theorem exists_scene (names : List (List Char)) (storable : ∀ name ∈ names, Storable name)
    (nonempty : ∀ name ∈ names, name ≠ []) (few : names.length < 400) (absolute : Bool)
    (enough : 32 < fuel) :
    ∃ (volume : Volume) (device : SectorDevice Unit) (scene : Scene volume device fuel),
      scene.absolute = absolute ∧ scene.names = names := by
  -- Cluster 2 is the empty directory, and the thread starts at cluster 3.
  let above := Volume.rootEntry 0
  have attr : above.attr ≠ 0x10 := (by decide : (0x30 : UInt8) ≠ 0x10)
  have idle : ∀ name, (listing names 2).search name = .ok (.error .endOfFile) :=
    search_empty (.inl (by decide))
  have apart {last : UInt32} (ending : last.toNat = 3 + names.length) : 2 ≠ last := by
    rintro rfl
    simp only [UInt32.reduceToNat] at ending
    omega
  have two : 2 ≤ (2 : UInt32).toNat ∧ (2 : UInt32).toNat < 500 := by decide
  have three : 2 ≤ (3 : UInt32).toNat ∧ (3 : UInt32).toNat < 500 := by decide
  cases absolute with
  | false =>
    obtain ⟨last, ending, thread⟩ := thread storable nonempty few two enough attr
      (List.nil_append names).symm
      (show (Place.mk 3 (Volume.rootEntry 3) none).cluster.toNat = 3 + 0 from rfl)
    exact ⟨_, _,
      { tree := tree names few two fuel enough
        start := ⟨3, Volume.rootEntry 3, some above⟩
        above := above
        parent := rfl
        isDirectory := three
        absolute := false
        names := names
        last := last
        thread := thread
        idle := .ended idle
        apart := apart ending }, rfl, rfl⟩
  | true =>
    obtain ⟨last, ending, thread⟩ := thread storable nonempty few three enough attr
      (List.nil_append names).symm
      (show (volume 3).rootPlace.cluster.toNat = 3 + 0 from rfl)
    exact ⟨_, _,
      { tree := tree names few three fuel enough
        start := ⟨2, Volume.rootEntry 2, some above⟩
        above := above
        parent := rfl
        isDirectory := two
        absolute := true
        names := names
        last := last
        thread := thread
        idle := .ended idle
        apart := apart ending }, rfl, rfl⟩

end PathImage

/-! ## Separation -/

theorem sublist_of_mem_pieces {residual component : List Char}
    (member : component ∈ pieces residual) : component.Sublist residual := by
  induction residual using pieces.induct with
  | case1 =>
    rw [pieces, if_pos rfl] at member
    cases member
  | case2 residual nonempty induction =>
    rw [pieces, if_neg nonempty, List.mem_cons] at member
    rw [splitPath] at member induction
    cases found : findSeparator residual with
    | none =>
      simp only [found] at member induction
      rcases member with rfl | later
      · exact List.Sublist.refl _
      · exact (induction later).trans (List.nil_sublist _)
    | some index =>
      simp only [found] at member induction
      rcases member with rfl | later
      · exact List.take_sublist _ _
      · exact (induction later).trans (List.drop_sublist _ _)

theorem sublist_lookedUp (path : List Char) : (lookedUp path).Sublist path := by
  rw [lookedUp]
  split_ifs
  · exact List.Sublist.refl _
  · exact List.drop_sublist _ _

theorem Storable.sublist {other : List Char} (storable : Storable name)
    (part : other.Sublist name) : Storable other :=
  ⟨Nat.lt_of_le_of_lt part.length_le storable.short,
    fun character member => storable.units character (part.subset member)⟩

theorem exists_returning (path : List Char) :
    ∃ (volume : Volume) (device : SectorDevice Unit) (fuel : Nat) (handle : OFileDirectory)
      (dir : Directory), handle.dir = some dir ∧
      ∃ result, volume.openPath device fuel handle path = .ok result := by
  obtain ⟨volume, device, scene, _, nothing⟩ := PathImage.exists_scene [] (by simp)
    (by simp) (by decide) false (show 32 < path.length + 33 by omega)
  exact ⟨volume, device, _, scene.start.handle, _, rfl, scene.openPath_returns nothing (by omega)⟩

theorem components_storable (storable : Storable path) :
    (∀ name ∈ components path, Storable name) ∧ (∀ name ∈ components path, name ≠ []) ∧
      (components path).length < 400 := by
  have members : ∀ name ∈ components path, name ∈ pieces path :=
    fun name member => (List.takeWhile_sublist _).subset member
  refine ⟨?_, ?_, ?_⟩
  · intro name member
    exact storable.sublist (sublist_of_mem_pieces (members name member))
  · intro name member
    simpa using List.mem_takeWhile_imp member
  · have fewer : (components path).length ≤ (pieces path).length :=
      (List.takeWhile_sublist _).length_le
    have short : path.length < 260 := storable.short
    have pieces := length_pieces_le path
    omega

/-- On some volume the path opens something that no path with another route opens. -/
def Separated (path : List Char) : Prop :=
  ∃ (volume : Volume) (device : SectorDevice Unit) (fuel : Nat) (handle : OFileDirectory)
    (dir : Directory) (file : OFileDirectory), handle.dir = some dir ∧
    volume.openPath device fuel handle path = .ok (.ok file) ∧
    ∀ other, volume.openPath device fuel handle other = .ok (.ok file) →
      route other = route path

theorem separated_self : Separated ['.'] := by
  obtain ⟨volume, device, scene, _, nothing⟩ := PathImage.exists_scene [] (by simp)
    (by simp) (by decide) false (show 32 < 300 by decide)
  refine ⟨volume, device, 300, scene.start.handle, _, scene.start.handle, rfl, rfl, ?_⟩
  intro other opened
  rw [scene.self_of_opened nothing opened]

theorem separated_parent (storable : Storable ['.', '.']) : Separated ['.', '.'] := by
  obtain ⟨volume, device, scene, relative, up⟩ := PathImage.exists_scene
    [['.', '.']] (by simpa using storable) (by simp) (by decide) false
    (show 32 < 300 by decide)
  refine ⟨volume, device, 300, scene.start.handle, _,
    ⟨scene.above, none, some (getDirectory scene.last.cluster), none⟩, rfl, ?_, ?_⟩
  · exact scene.openPath_up relative up
  · intro other opened
    rw [scene.parent_of_opened (by simp [up]) opened]

theorem separated_along (storable : Storable path) (notSelf : path ≠ ['.'])
    (notParent : path ≠ ['.', '.']) : Separated path := by
  obtain ⟨storables, nonempty, few⟩ :=
    components_storable (storable.sublist (sublist_lookedUp path))
  obtain ⟨volume, device, scene, kind, names⟩ := PathImage.exists_scene _ storables nonempty few
    (decide (findSeparator path = some 0)) (show 32 < 300 by decide)
  have short : path.length < 300 := Nat.lt_trans storable.short (by decide)
  refine ⟨volume, device, 300, scene.start.handle, _,
    scene.last.reached ([] ∈ pieces (lookedUp path)), rfl, ?_, ?_⟩
  · rw [scene.openPath_walk notSelf notParent short, ← kind]
    exact scene.thread_origin.walk names.symm
  · intro other opened
    obtain ⟨otherNotSelf, otherNotParent, kind', same, cut⟩ := scene.along_of_opened opened
    have components := same.trans names
    have cuts : cutShort (lookedUp other) = cutShort (lookedUp path) := by
      by_cases nothing : Fat.components (lookedUp other) = []
      · simp [cutShort, nothing, ← components]
      · apply (cutShort_eq nothing components).mpr
        rw [same] at nothing
        simpa using cut nothing
    rw [route_along notSelf notParent, route_along otherNotSelf otherNotParent, kind', kind,
      components, cuts]

/-- A path that can be stored opens something that no path with another route opens. -/
theorem exists_separating (storable : Storable path) : Separated path := by
  by_cases self : path = ['.']
  · rw [self]
    exact separated_self
  · by_cases parent : path = ['.', '.']
    · rw [parent] at storable ⊢
      exact separated_parent storable
    · exact separated_along storable self parent

end HypervisorFirmware.Fat
