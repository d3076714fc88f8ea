import HypervisorFirmware.Fat.PathLookup

/-! # The parent of a directory

`open` with the path `..`: the cluster of the parent comes from the directory on disk,
its entry from the handle. Which handles know the entry depends on how they were
opened. -/

namespace HypervisorFirmware.Fat.Tree

variable {volume : Volume} {device : SectorDevice Unit} {fuel : Nat}

abbrev parentName : List Char := ['.', '.']

structure PlainName (name : List Char) : Prop where
  nonempty : name ≠ []
  noSlash : '/' ∉ name
  noBackslash : '\\' ∉ name
  notSelf : name ≠ ['.']
  notParent : name ≠ parentName

inductive Reachable (tree : Tree volume device fuel) : OFileDirectory → Prop
  | root : Reachable tree volume.rootPlace.handle
  | opened {handle next : OFileDirectory} {path : List Char} : Reachable tree handle →
      volume.openPath device fuel handle path = .ok (.ok next) → Reachable tree next

/-- The root has no parent, and the parent of a subdirectory is the directory that it
is found in. The root is written as cluster 0. -/
structure Consistent (tree : Tree volume device fuel) : Prop where
  root : (tree.listing volume.rootCluster).find parentName = none
  parents : ∀ cluster, tree.IsDirectory cluster → ∀ name entry, PlainName name →
    (tree.listing cluster).find name = some entry → entry.fileType = .directory →
    ∃ parent, (tree.listing (volume.directoryOf entry)).find parentName = some parent ∧
      parent.fileType = .directory ∧
      parent.cluster = if cluster = volume.rootCluster then 0 else cluster

/-- Going up from a handle does not panic. From a subdirectory it leads to the handle
the subdirectory was opened from, and from the root it is an error. -/
structure SafeParent (tree : Tree volume device fuel) (handle : OFileDirectory) : Prop where
  returns : ∃ result, volume.openPath device fuel handle parentName = .ok result
  parent : ∀ directory cluster name, tree.Reachable directory → tree.Opens directory cluster →
    PlainName name → volume.openPath device fuel directory name = .ok (.ok handle) →
    handle.dir.isSome →
    ∃ up, volume.openPath device fuel handle parentName = .ok (.ok up) ∧
      if cluster = volume.rootCluster then up = volume.rootPlace.handle
      else up.dirEnt = directory.dirEnt ∧ up.dir = some (getDirectory cluster)
  root : tree.Opens handle volume.rootCluster →
    ∃ error, volume.openPath device fuel handle parentName = .ok (.error error)

/-- The search for `..` meets no fault, and if it finds a directory other than the
root, then the handle knows the entry of its parent. -/
def ParentKnown (tree : Tree volume device fuel) (handle : OFileDirectory) (cluster : UInt32) :
    Prop :=
  (tree.listing cluster).Searchable parentName ∧
    ∀ parent, (tree.listing cluster).find parentName = some parent →
      parent.fileType = .directory → parent.cluster ≠ 0 → handle.pdirEnt ≠ none

/-! ## Going up -/

section

variable (tree : Tree volume device fuel) {handle : OFileDirectory} {cluster : UInt32}
  (opens : tree.Opens handle cluster)

include tree opens

theorem openParent_eq :
    volume.openPath device fuel handle parentName =
      match (tree.listing cluster).search parentName with
      | .error fault => .error fault
      | .ok (.error error) => .ok (.error error)
      | .ok (.ok pdir) =>
        if pdir.fileType = .directory then
          if pdir.cluster = 0 then .ok (.ok volume.rootPlace.handle)
          else
            match handle.pdirEnt with
            | none => .error .panicked
            | some pdirInt => .ok (.ok (.new pdirInt none (some (getDirectory pdir.cluster))))
        else .ok (.error .blockError) := by
  rcases opens with ⟨⟨dir, isDir, start⟩, isDirectory⟩
  rw [Volume.openPath, if_neg (by decide), if_pos rfl, Volume.openParent,
    OFileDirectory.getParentDirEnt, isDir]
  simp only [reset_eq start, tree.findEntry isDirectory, tree.unwrapRoot]
  cases (tree.listing cluster).search parentName with
  | error fault => rfl
  | ok result =>
    cases result with
    | error error => rfl
    | ok pdir => rfl

theorem returns_iff_parentKnown :
    (∃ result, volume.openPath device fuel handle parentName = .ok result) ↔
      tree.ParentKnown handle cluster := by
  rw [tree.openParent_eq opens, ParentKnown, Listing.Searchable]
  cases searched : (tree.listing cluster).search parentName with
  | error fault => simp
  | ok result =>
    have found := Listing.find_of_search searched
    cases result with
    | error error => simp [found, Except.toOption]
    | ok pdir =>
      have only : (tree.listing cluster).find parentName = some pdir := found
      simp only [only, Option.some.injEq, forall_eq', Except.ok.injEq, exists_eq', true_and]
      by_cases directory : pdir.fileType = .directory
      · by_cases root : pdir.cluster = 0
        · simp [directory, root]
        · cases handle.pdirEnt with
          | none => simp [directory, root]
          | some pdirInt => simp [directory, root]
      · simp [directory]

end

/-! ## Reachable handles -/

def Usable (tree : Tree volume device fuel) (cluster : UInt32) : Prop :=
  tree.IsDirectory cluster ∧ (cluster = volume.rootCluster ∨ cluster ≠ 0)

def Proper (tree : Tree volume device fuel) (handle : OFileDirectory) : Prop :=
  ∀ dir, handle.dir = some dir → ∃ cluster, dir = getDirectory cluster ∧ tree.Usable cluster

theorem usable_root (tree : Tree volume device fuel) : tree.Usable volume.rootCluster :=
  ⟨tree.root, Or.inl rfl⟩

variable {name : List Char} {directory : OFileDirectory}

section

variable (tree : Tree volume device fuel)

include tree

theorem usable_entry {cluster : UInt32} (isDirectory : tree.IsDirectory cluster)
    {entry : DirectoryEntry} (searched : (tree.listing cluster).search name = .ok (.ok entry))
    (directory : entry.fileType = .directory) (notRoot : entry.cluster ≠ 0) :
    tree.Usable entry.cluster :=
  ⟨tree.closed cluster isDirectory entry (mem_of_search searched) directory notRoot, Or.inr notRoot⟩

theorem proper_directory {handle : OFileDirectory} {cluster : UInt32}
    (isDir : handle.dir = some (getDirectory cluster)) (usable : tree.Usable cluster) :
    tree.Proper handle := by
  intro dir same
  rw [isDir, Option.some.injEq] at same
  exact ⟨cluster, same.symm, usable⟩

theorem walk_proper (components : List (List Char)) {place : Place}
    (usable : tree.Usable place.cluster) {next : OFileDirectory}
    (walked : walk volume tree.listing place components = .ok (.ok next)) : tree.Proper next := by
  induction components generalizing place with
  | nil =>
    cases walked
    exact tree.proper_directory rfl usable
  | cons component rest induction =>
    by_cases empty : component = []
    · rw [walk, if_pos empty] at walked
      cases walked
      exact tree.proper_directory rfl usable
    · rcases Volume.walk_opened empty walked with
        ⟨entry, searched, ⟨kind, same⟩ | ⟨kind, later⟩⟩
      · rw [same, Volume.object, kind]
        intro dir isDir
        cases isDir
      · refine induction ?_ later
        rw [Volume.enter]
        split_ifs with root
        · exact tree.usable_root
        · exact tree.usable_entry usable.1 searched kind root

theorem walk_of_loop {residual : List Char} {place : Place}
    (isDirectory : tree.IsDirectory place.cluster) {limit : Nat}
    {result : Except Error OFileDirectory} (returned : Loop.run (volume.openBody device fuel) limit
      ⟨residual, getDirectory place.cluster, place.entry, place.parent⟩ = .ok result) :
    walk volume tree.listing place (pieces residual) = .ok result := by
  rw [← tree.loop_eq_walk (limit + (pieces residual).length + 1) residual (by omega) place
    isDirectory]
  exact Loop.run_mono (by omega) returned

theorem walk_of_openPath {handle next : OFileDirectory} {path : List Char} (notSelf : path ≠ ['.'])
    (notParent : path ≠ parentName)
    (opened : volume.openPath device fuel handle path = .ok (.ok next)) :
    (findSeparator path = some 0 ∧
      walk volume tree.listing volume.rootPlace (pieces (path.drop 1)) = .ok (.ok next)) ∨
    (findSeparator path ≠ some 0 ∧ handle.dir.isSome ∧
      ∀ cluster, tree.Opens handle cluster →
        walk volume tree.listing ⟨cluster, handle.dirEnt, none⟩ (pieces path) =
          .ok (.ok next)) := by
  simp only [Volume.openPath, if_neg notSelf, if_neg notParent, tree.unwrapRoot,
    Exec.ok_bind] at opened
  by_cases relative : findSeparator path ≠ some 0
  · right
    rw [if_pos relative] at opened
    cases isDir : handle.dir with
    | none => simp [isDir] at opened
    | some dir =>
      simp only [isDir] at opened
      refine ⟨relative, rfl, ?_⟩
      rintro cluster ⟨⟨other, same, start⟩, isDirectory⟩
      rw [isDir, Option.some.injEq] at same
      rw [same, reset_eq start] at opened
      exact tree.walk_of_loop isDirectory opened
  · left
    rw [if_neg relative] at opened
    exact ⟨not_not.mp relative, tree.walk_of_loop tree.root opened⟩

end

theorem Proper.opens {tree : Tree volume device fuel} {handle : OFileDirectory}
    (proper : tree.Proper handle) (isDir : handle.dir.isSome) :
    ∃ cluster, handle.dir = some (getDirectory cluster) ∧ tree.Usable cluster ∧
      tree.Opens handle cluster := by
  rcases Option.isSome_iff_exists.mp isDir with ⟨dir, same⟩
  rcases proper dir same with ⟨cluster, rfl, usable⟩
  exact ⟨cluster, same, usable, ⟨_, same, rfl⟩, usable.1⟩

theorem parent_cases (tree : Tree volume device fuel) {handle next : OFileDirectory}
    (proper : tree.Proper handle)
    (opened : volume.openPath device fuel handle parentName = .ok (.ok next)) :
    next.pdirEnt = none ∧ tree.Proper next := by
  by_cases isDir : handle.dir.isSome
  · rcases proper.opens isDir with ⟨cluster, _, usable, opens⟩
    rw [tree.openParent_eq opens] at opened
    cases searched : (tree.listing cluster).search parentName with
    | error fault => simp [searched] at opened
    | ok result =>
      cases result with
      | error error => simp [searched] at opened
      | ok pdir =>
        simp only [searched] at opened
        split_ifs at opened with directory root
        · cases opened
          exact ⟨rfl, tree.proper_directory rfl tree.usable_root⟩
        · cases known : handle.pdirEnt with
          | none => simp [known] at opened
          | some pdirInt =>
            simp only [known] at opened
            cases opened
            exact ⟨rfl,
              tree.proper_directory rfl (tree.usable_entry usable.1 searched directory root)⟩
        · cases opened
  · rw [Option.not_isSome_iff_eq_none] at isDir
    rw [Volume.openPath, if_neg (by decide), if_pos rfl, Volume.openParent,
      OFileDirectory.getParentDirEnt, isDir] at opened
    cases opened

theorem proper_of_reachable (tree : Tree volume device fuel) {handle : OFileDirectory}
    (reachable : tree.Reachable handle) : tree.Proper handle := by
  induction reachable with
  | root => exact tree.proper_directory rfl tree.usable_root
  | @opened handle next path _ opened proper =>
    by_cases self : path = ['.']
    · rw [Volume.openPath, if_pos self] at opened
      cases opened
      exact proper
    · by_cases parent : path = parentName
      · rw [parent] at opened
        exact (tree.parent_cases proper opened).2
      · rcases tree.walk_of_openPath self parent opened with
          ⟨_, walked⟩ | ⟨_, isDir, walked⟩
        · exact tree.walk_proper _ tree.usable_root walked
        · rcases proper.opens isDir with ⟨cluster, _, usable, opens⟩
          exact tree.walk_proper _ usable (walked cluster opens)

theorem Opens.clusterStart {tree : Tree volume device fuel} {handle : OFileDirectory}
    {cluster : UInt32} (opens : tree.Opens handle cluster) {dir : Directory}
    (isDir : handle.dir = some dir) : dir.clusterStart = some cluster := by
  rcases opens with ⟨⟨other, same, start⟩, _⟩
  rw [isDir, Option.some.injEq] at same
  rw [same, start]

theorem Opens.unique {tree : Tree volume device fuel} {handle : OFileDirectory}
    {cluster other : UInt32} (opens : tree.Opens handle cluster)
    (opensOther : tree.Opens handle other) : cluster = other := by
  rcases opens with ⟨⟨dir, isDir, start⟩, _⟩
  exact Option.some.inj (start.symm.trans (opensOther.clusterStart isDir))

/-! ## Which handles know their parent -/

theorem walk_pdirEnt {listing : UInt32 → Listing} (components : List (List Char)) {place : Place}
    {next : OFileDirectory} (walked : walk volume listing place components = .ok (.ok next)) :
    next.pdirEnt.isSome ↔ next.dir.isSome ∧ [] ∉ components ∧
      if components = [] then place.parent.isSome else next ≠ volume.rootPlace.handle := by
  induction components generalizing place with
  | nil =>
    cases walked
    simp [Place.handle]
  | cons component rest induction =>
    by_cases empty : component = []
    · rw [walk, if_pos empty] at walked
      cases walked
      simp [empty]
    · rcases Volume.walk_opened empty walked with ⟨entry, _, ⟨kind, same⟩ | ⟨kind, later⟩⟩
      · simp [same, Volume.object, kind, OFileDirectory.new]
      · rw [induction later, if_neg (List.cons_ne_nil _ _), List.mem_cons,
          or_iff_right (Ne.symm empty)]
        refine and_congr_right fun _ => and_congr_right fun _ => ?_
        split_ifs with last
        · subst last
          cases later
          rw [Volume.enter]
          split_ifs <;> simp [Place.handle, Volume.rootPlace]
        · rfl

/-- What `open` leaves of the parent: `.` keeps it, `..` drops it, and another path sets it
exactly if it has names, none of them empty, and ends in a directory other than the root. -/
theorem openPath_pdirEnt (tree : Tree volume device fuel) {handle next : OFileDirectory}
    (proper : tree.Proper handle) {path : List Char}
    (opened : volume.openPath device fuel handle path = .ok (.ok next)) :
    let names := pieces (if findSeparator path = some 0 then path.drop 1 else path)
    if path = ['.'] then next.pdirEnt = handle.pdirEnt
    else if path = parentName then next.pdirEnt = none
    else next.pdirEnt.isSome ↔ next.dir.isSome ∧ names ≠ [] ∧ [] ∉ names ∧
      next ≠ volume.rootPlace.handle := by
  have sets : ∀ names place, place.parent = none →
      walk volume tree.listing place names = .ok (.ok next) →
      (next.pdirEnt.isSome ↔ next.dir.isSome ∧ names ≠ [] ∧ [] ∉ names ∧
        next ≠ volume.rootPlace.handle) := by
    intro names place start walked
    rw [walk_pdirEnt names walked, start]
    split_ifs with nothing <;> simp [nothing]
  dsimp only
  split_ifs with self parent absolute
  · rw [Volume.openPath, if_pos self] at opened
    cases opened
    rfl
  · subst parent
    exact (tree.parent_cases proper opened).1
  all_goals rcases tree.walk_of_openPath self parent opened with
    ⟨here, walked⟩ | ⟨here, isDir, walked⟩
  · exact sets _ _ rfl walked
  · exact absurd absolute here
  · exact absurd here absolute
  · rcases proper.opens isDir with ⟨cluster, _, _, opens⟩
    exact sets _ _ rfl (walked cluster opens)

/-! ## From a subdirectory to its parent -/

theorem PlainName.findSeparator (plain : PlainName name) : findSeparator name = none := by
  rw [Fat.findSeparator, findIdx?_absent plain.noSlash, findIdx?_absent plain.noBackslash]
  rfl

theorem openPath_subdirectory (tree : Tree volume device fuel)
    {handle : OFileDirectory} {cluster : UInt32}
    (opens : tree.Opens directory cluster) (plain : PlainName name)
    (opened : volume.openPath device fuel directory name = .ok (.ok handle))
    (isDir : handle.dir.isSome) :
    ∃ entry, (tree.listing cluster).find name = some entry ∧ entry.fileType = .directory ∧
      handle = (volume.enter ⟨cluster, directory.dirEnt, none⟩ entry).handle := by
  rcases tree.walk_of_openPath plain.notSelf plain.notParent opened with
    ⟨absolute, _⟩ | ⟨_, _, walked⟩
  · rw [plain.findSeparator] at absolute
    cases absolute
  · have here := walked cluster opens
    rw [pieces_plain plain.nonempty plain.noSlash plain.noBackslash] at here
    rcases Volume.walk_opened plain.nonempty here with
      ⟨entry, searched, ⟨kind, same⟩ | ⟨kind, later⟩⟩
    · rw [same, Volume.object, kind] at isDir
      cases isDir
    · rw [walk] at later
      cases later
      exact ⟨entry, Listing.find_of_search searched, kind, rfl⟩

theorem openParent_subdirectory (tree : Tree volume device fuel) (consistent : tree.Consistent)
    {handle : OFileDirectory} {cluster own : UInt32}
    (opensParent : tree.Opens directory cluster) (usable : tree.Usable cluster)
    (plain : PlainName name)
    (opened : volume.openPath device fuel directory name = .ok (.ok handle))
    (isDir : handle.dir.isSome) (opens : tree.Opens handle own)
    (searchable : (tree.listing own).Searchable parentName) :
    ∃ up, volume.openPath device fuel handle parentName = .ok (.ok up) ∧
      if cluster = volume.rootCluster then up = volume.rootPlace.handle
      else up.dirEnt = directory.dirEnt ∧ up.dir = some (getDirectory cluster) := by
  rcases tree.openPath_subdirectory opensParent plain opened isDir with
    ⟨entry, listed, kind, entered⟩
  rcases consistent.parents cluster opensParent.2 name entry plain listed kind with
    ⟨parent, listedParent, parentKind, parentAt⟩
  -- A subdirectory with cluster 0 would be the root, which has no parent.
  have notRoot : entry.cluster ≠ 0 := by
    intro root
    rw [Volume.directoryOf, if_pos root, consistent.root] at listedParent
    cases listedParent
  rw [Volume.directoryOf, if_neg notRoot] at listedParent
  rw [Volume.enter, if_neg notRoot] at entered
  have isDirectory : handle.dir = some (getDirectory entry.cluster) := by
    rw [entered]
    rfl
  have here : own = entry.cluster := (Option.some.inj (opens.clusterStart isDirectory)).symm
  have pdirEnt : handle.pdirEnt = some directory.dirEnt := by
    rw [entered]
    rfl
  have up := tree.openParent_eq opens
  rcases searchable with ⟨result, searched⟩
  have found := Listing.find_of_search searched
  rw [here, listedParent] at found
  cases result with
  | error error => cases found
  | ok pdir =>
    cases found
    rw [searched] at up
    simp only [parentKind, if_true] at up
    by_cases atRoot : cluster = volume.rootCluster
    · rw [if_pos atRoot] at parentAt
      rw [if_pos parentAt] at up
      exact ⟨_, up, by rw [if_pos atRoot]⟩
    · rw [if_neg atRoot] at parentAt
      have nonzero : parent.cluster ≠ 0 := parentAt ▸ usable.2.resolve_left atRoot
      simp only [if_neg nonzero, pdirEnt] at up
      refine ⟨_, up, ?_⟩
      rw [if_neg atRoot, ← parentAt]
      exact ⟨rfl, rfl⟩

/-- On a volume with consistent `..` entries, going up from a directory handle is safe
exactly if the handle knows its parent where it needs to. -/
theorem safeParent_iff_parentKnown (volume : Volume) (device : SectorDevice Unit) (fuel : Nat)
    (tree : Tree volume device fuel) (consistent : tree.Consistent) (handle : OFileDirectory)
    (reachable : tree.Reachable handle) (isDir : handle.dir.isSome) :
    tree.SafeParent handle ↔
      ∃ cluster, tree.Opens handle cluster ∧ tree.ParentKnown handle cluster := by
  constructor
  · intro safe
    rcases (tree.proper_of_reachable reachable).opens isDir with ⟨cluster, _, _, opens⟩
    exact ⟨cluster, opens, (tree.returns_iff_parentKnown opens).mp safe.returns⟩
  · rintro ⟨cluster, opens, known⟩
    refine ⟨(tree.returns_iff_parentKnown opens).mpr known, ?_, ?_⟩
    · intro directory parentCluster name fromRoot opensParent plain opened _
      have parentDir : directory.dir.isSome := by
        rcases opensParent.1 with ⟨dir, isSome, _⟩
        rw [isSome]
        rfl
      rcases (tree.proper_of_reachable fromRoot).opens parentDir with ⟨other, _, usable, same⟩
      rw [← opensParent.unique same] at usable
      exact tree.openParent_subdirectory consistent opensParent usable plain opened isDir opens
        known.1
    · intro opensRoot
      have up := tree.openParent_eq opens
      rcases known.1 with ⟨result, searched⟩
      have found := Listing.find_of_search searched
      rw [opens.unique opensRoot, consistent.root] at found
      cases result with
      | ok parent => cases found
      | error error => exact ⟨error, by rw [up, searched]⟩

end HypervisorFirmware.Fat.Tree

namespace HypervisorFirmware.Fat

/-! ## Nested directories -/

namespace Nested

open Fat.Tree (parentName)

abbrev volume : Volume := FileInRoot.volume

def record (entry : List UInt8 × UInt8) : List UInt8 :=
  entry.1 ++ List.replicate (11 - entry.1.length) 32 ++ 0x10 :: List.replicate 14 0 ++
    entry.2 :: List.replicate 5 0

def sector (entries : List (List UInt8 × UInt8)) : Sector := .ofBytes (entries.flatMap record)

def content (index : UInt64) : Sector :=
  if index = 0 then Vector.replicate 512 0xff
  else if index = 1 then sector [([65], 3)]
  else if index = 2 then sector [([46, 46], 0), ([66], 4)]
  else if index = 3 then sector [([46, 46], 3), ([67], 5)]
  else sector [([46, 46], 4)]

def device : SectorDevice Unit := .reliable content

abbrev clusters : List UInt32 := [2, 3, 4, 5]

def listing (cluster : UInt32) : Listing :=
  scanRecords (.ok .endOfFile) emptyName
    (directoryRecords volume.toFilesystem content [cluster])

theorem finite : ∀ cluster ∈ clusters,
    FiniteDirectory volume.toFilesystem content cluster [cluster] := by
  have last : ∀ cluster ∈ clusters,
      volume.nextCluster device cluster () = .ok (.error .endOfFile, ()) :=
    List.all_iff_forall_prop.mp (by decide +kernel)
  have readable : ∀ cluster ∈ clusters, ∀ index < 1,
      volume.start + (UInt32.ofNat index + volume.firstSectorOfCluster cluster).toUInt64 ≤
        volume.last := List.all_iff_forall_prop.mp (by decide +kernel)
  intro cluster member
  exact .single (last cluster member) (readable cluster member)

def tree : Tree volume device 10 where
  fat32 := rfl
  positive := by decide
  listing := listing
  IsDirectory cluster := cluster ∈ clusters
  root := by decide
  lists cluster member := (finite cluster member).lists (show 1 < 10 by decide)
  short := List.all_iff_forall_prop.mp (by decide +kernel)
  closed := List.all_iff_forall_prop.mp (by decide +kernel)

theorem tree_listing : tree.listing = listing := by simp only [tree]

theorem entries_checked : ∀ cluster ∈ clusters, ∀ entry ∈ (listing cluster).entries,
    (EfiStr.OsStr.fromU16SliceWithNul entry.longName.toList = .ok [] ∧
      entry.name.toList.takeWhile (· ≠ 0) = [46, 46]) ∨
    ((listing (volume.directoryOf entry)).find parentName).any (fun parent =>
      parent.fileType = .directory ∧
        parent.cluster = if cluster = volume.rootCluster then 0 else cluster) :=
  List.all_iff_forall_prop.mp (by decide +kernel)

theorem name_of_dots {name : List Char} {entry : DirectoryEntry}
    (longName : EfiStr.OsStr.fromU16SliceWithNul entry.longName.toList = .ok [])
    (shortName : entry.name.toList.takeWhile (· ≠ 0) = [46, 46])
    (compared : compareName name entry = .ok true) : name = parentName ∨ name = [] := by
  simp only [compareName_of_slice longName, compareShortName, shortName, Except.ok.injEq,
    Bool.or_eq_true, beq_iff_eq, List.map_nil] at compared
  rcases compared with dots | nothing
  · have same : EfiStr.utf8 name = EfiStr.utf8 parentName := dots.symm
    exact Or.inl (EfiStr.utf8_injective same)
  · exact Or.inr (List.map_eq_nil_iff.mp nothing.symm)

theorem root_checked : (listing 2).find parentName = none := by decide +kernel

theorem consistent : tree.Consistent := by
  refine ⟨root_checked, ?_⟩
  intro cluster member name entry plain listed _
  rw [tree_listing] at listed ⊢
  rcases Listing.find_eq_some listed with ⟨inside, compared⟩
  rcases entries_checked cluster member entry inside with ⟨longName, shortName⟩ | right
  · rcases name_of_dots longName shortName compared with dots | nothing
    · exact absurd dots plain.notParent
    · exact absurd nothing plain.nonempty
  · cases found : (listing (volume.directoryOf entry)).find parentName with
    | none => simp [found] at right
    | some parent =>
      rw [found, Option.any_some, decide_eq_true_eq] at right
      exact ⟨parent, rfl, right⟩

def handleOf : Exec (Except Error OFileDirectory) → OFileDirectory
  | .ok (.ok handle) => handle
  | _ => volume.rootPlace.handle

theorem handleOf_eq {result : Exec (Except Error OFileDirectory)}
    (opened : result.map Except.isOk = .ok true) : result = .ok (.ok (handleOf result)) := by
  rcases result with fault | (error | handle)
  · cases opened
  · cases opened
  · rfl

def bottom : OFileDirectory :=
  handleOf (volume.openPath device 10 volume.rootPlace.handle ['A', '/', 'B', '/', 'C'])

def above : OFileDirectory := handleOf (volume.openPath device 10 bottom parentName)

theorem reachable_bottom : tree.Reachable bottom := by
  have opened : (volume.openPath device 10 volume.rootPlace.handle
      ['A', '/', 'B', '/', 'C']).map Except.isOk = .ok true := by decide +kernel
  exact .opened .root (handleOf_eq opened)

theorem reachable_above : tree.Reachable above := by
  have opened : (volume.openPath device 10 bottom parentName).map Except.isOk = .ok true := by
    decide +kernel
  exact .opened reachable_bottom (handleOf_eq opened)

end Nested

theorem Tree.safeParent_iff_parentKnown_nested : Nested.tree.SafeParent Nested.bottom := by
  refine (safeParent_iff_parentKnown _ _ _ Nested.tree Nested.consistent _
    Nested.reachable_bottom (by decide +kernel)).mpr ?_
  refine ⟨5, ⟨⟨getDirectory 5, by decide +kernel, rfl⟩, show 5 ∈ Nested.clusters by decide⟩,
    by decide +kernel, ?_⟩
  intro _ _ _ _
  decide +kernel

/-- Going up twice from `A/B/C` panics: the handle that the first step returns does not
know its parent. -/
theorem Tree.not_safeParent_after_parent :
    Nested.tree.Consistent ∧ Nested.tree.Reachable Nested.above ∧ Nested.above.dir.isSome ∧
      ¬ Nested.tree.SafeParent Nested.above := by
  refine ⟨Nested.consistent, Nested.reachable_above, by decide +kernel, ?_⟩
  intro safe
  have panics : Nested.volume.openPath Nested.device 10 Nested.above parentName =
      .error .panicked := by decide +kernel
  rcases safe.returns with ⟨result, returned⟩
  rw [panics] at returned
  cases returned

end HypervisorFirmware.Fat
