import HypervisorFirmware.Fat.DirectoryScan
import HypervisorFirmware.Fat.Open

/-! # Looking up paths

What `open` finds, in terms of the listings of the directories it goes through. -/

namespace HypervisorFirmware.Fat

/-! ## One directory -/

def searchEntries (name : List Char) (ending : Exec Error) :
    List DirectoryEntry → Exec (Except Error DirectoryEntry)
  | [] =>
    match ending with
    | .error fault => .error fault
    | .ok error => .ok (.error error)
  | entry :: rest =>
    match compareName name entry with
    | .error fault => .error fault
    | .ok true => .ok (.ok entry)
    | .ok false => searchEntries name ending rest

namespace Listing

def search (listing : Listing) (name : List Char) : Exec (Except Error DirectoryEntry) :=
  searchEntries name listing.ending listing.entries

def find (listing : Listing) (name : List Char) : Option DirectoryEntry :=
  listing.entries.find? fun entry => compareName name entry == .ok true

def Searchable (listing : Listing) (name : List Char) : Prop :=
  ∃ result, listing.search name = .ok result

instance (listing : Listing) (name : List Char) : Decidable (listing.Searchable name) :=
  match searched : listing.search name with
  | .ok result => .isTrue ⟨result, searched⟩
  | .error _ => .isFalse (by simp [Searchable, searched])

end Listing

variable {name component : List Char} {result : Except Error DirectoryEntry}

theorem find_of_searchEntries {ending : Exec Error} {entries : List DirectoryEntry}
    (searched : searchEntries name ending entries = .ok result) :
    entries.find? (fun entry => compareName name entry == .ok true) = result.toOption := by
  induction entries with
  | nil =>
    cases ending with
    | error fault => cases searched
    | ok error =>
      cases searched
      rfl
  | cons entry rest induction =>
    rw [searchEntries] at searched
    cases compared : compareName name entry with
    | error fault => simp [compared] at searched
    | ok same =>
      cases same with
      | true =>
        simp only [compared, Except.ok.injEq] at searched
        rw [← searched]
        simp [compared, Except.toOption]
      | false =>
        simp only [compared] at searched
        rw [List.find?_cons, compared]
        exact induction searched

theorem Listing.find_of_search {listing : Listing} (searched : listing.search name = .ok result) :
    listing.find name = result.toOption := find_of_searchEntries searched

theorem Listing.find_eq_some {listing : Listing} {entry : DirectoryEntry}
    (found : listing.find name = some entry) :
    entry ∈ listing.entries ∧ compareName name entry = .ok true := by
  have compared := List.find?_some found
  exact ⟨List.mem_of_find?_eq_some found, beq_iff_eq.mp compared⟩

theorem findEntry_eq_search {fs : Filesystem} {device : SectorDevice Unit}
    (positive : 0 < fs.sectorsPerCluster) {budget fuel : Nat} (name : List Char)
    {dir : Directory} {listing : Listing} (lists : dir.Lists fs device budget listing)
    (enough : listing.entries.length < fuel) :
    Loop.run (findEntryBody fs device budget name) fuel dir = listing.search name := by
  rcases listing with ⟨entries, ending⟩
  induction entries generalizing dir fuel with
  | nil =>
    obtain ⟨fuel, rfl⟩ := Nat.exists_eq_succ_of_ne_zero (Nat.ne_zero_of_lt enough)
    have once := lists.nextEntry positive
    cases ending with
    | error fault =>
      have called : dir.nextEntry fs device budget = .error fault := once
      simp [Loop.run, findEntryBody, called, Listing.search, searchEntries]
    | ok error =>
      rcases once with ⟨next, called, _⟩
      simp [Loop.run, findEntryBody, called, Listing.search, searchEntries]
  | cons entry rest induction =>
    obtain ⟨fuel, rfl⟩ := Nat.exists_eq_succ_of_ne_zero (Nat.ne_zero_of_lt enough)
    rw [List.length_cons] at enough
    rcases lists.nextEntry positive with ⟨next, called, others⟩
    have later := induction others (Nat.lt_of_succ_lt_succ enough)
    rw [Listing.search] at later ⊢
    rw [Loop.run, findEntryBody, called, searchEntries]
    cases compared : compareName name entry with
    | error fault => simp [compared]
    | ok same =>
      cases same with
      | true => simp [compared]
      | false =>
        simp only [Exec.ok_bind, compared, Bool.false_eq_true, if_false, Exec.pure_eq_ok]
        exact later

/-! ## All directories -/

/-- The directories of a FAT32 volume: all of their chains come to an end within the
iteration budget. -/
structure Tree (volume : Volume) (device : SectorDevice Unit) (fuel : Nat) where
  fat32 : volume.fatType = .fat32
  positive : 0 < volume.sectorsPerCluster
  /-- The directory that starts at a cluster. -/
  listing : UInt32 → Listing
  IsDirectory : UInt32 → Prop
  root : IsDirectory volume.rootCluster
  lists : ∀ cluster, IsDirectory cluster →
    (getDirectory cluster).Lists volume.toFilesystem device fuel (listing cluster)
  short : ∀ cluster, IsDirectory cluster → (listing cluster).entries.length < fuel
  closed : ∀ cluster, IsDirectory cluster → ∀ entry ∈ (listing cluster).entries,
    entry.fileType = .directory → entry.cluster ≠ 0 → IsDirectory entry.cluster

structure Place where
  cluster : UInt32
  entry : DirectoryEntry
  parent : Option DirectoryEntry

def Place.handle (place : Place) : OFileDirectory :=
  ⟨place.entry, none, some (getDirectory place.cluster), place.parent⟩

namespace Volume

def rootPlace (volume : Volume) : Place :=
  ⟨volume.rootCluster, rootEntry volume.rootCluster, none⟩

def enter (volume : Volume) (place : Place) (entry : DirectoryEntry) : Place :=
  if entry.cluster = 0 then volume.rootPlace else ⟨entry.cluster, entry, some place.entry⟩

end Volume

theorem length_splitPath_lt {residual : List Char} (nonempty : residual ≠ []) :
    (splitPath residual).2.length < residual.length := by
  have positive := List.length_pos_iff.mpr nonempty
  rw [splitPath]
  split
  · exact positive
  · simp only [List.length_drop]
    omega

def pieces (residual : List Char) : List (List Char) :=
  if residual = [] then [] else (splitPath residual).1 :: pieces (splitPath residual).2
termination_by residual.length
decreasing_by exact length_splitPath_lt ‹_›

theorem length_pieces_le (residual : List Char) : (pieces residual).length ≤ residual.length := by
  induction residual using pieces.induct with
  | case1 => simp [pieces]
  | case2 residual nonempty induction =>
    rw [pieces, if_neg nonempty, List.length_cons]
    exact Nat.lt_of_le_of_lt induction (length_splitPath_lt nonempty)

/-- Look up components from a directory on. A file ends the walk, whatever is left of
the path, and so does an empty component. -/
def walk (volume : Volume) (listing : UInt32 → Listing) :
    Place → List (List Char) → Exec (Except Error OFileDirectory)
  | place, [] => .ok (.ok place.handle)
  | place, component :: rest =>
    if component = [] then .ok (.ok { place.handle with pdirEnt := none })
    else
      match (listing place.cluster).search component with
      | .error fault => .error fault
      | .ok (.error .endOfFile) => .ok (.error .notFound)
      | .ok (.error error) => .ok (.error error)
      | .ok (.ok entry) =>
        match entry.fileType with
        | .file => .ok (.ok (.new entry (some (getFile entry.cluster entry.size)) none))
        | .directory => walk volume listing (volume.enter place entry) rest

namespace Tree

variable {volume : Volume} {device : SectorDevice Unit} {fuel : Nat}

theorem unwrapRoot (tree : Tree volume device fuel) :
    volume.unwrapRoot = .ok volume.rootPlace.handle := by
  rw [Volume.unwrapRoot, Volume.root, tree.fat32]
  rfl

theorem findEntry (tree : Tree volume device fuel) {cluster : UInt32}
    (isDirectory : tree.IsDirectory cluster) (name : List Char) :
    Fat.findEntry volume.toFilesystem device fuel name (getDirectory cluster) =
      (tree.listing cluster).search name :=
  findEntry_eq_search tree.positive name (tree.lists cluster isDirectory)
    (tree.short cluster isDirectory)

theorem mem_of_search {listing : Listing} {name : List Char} {entry : DirectoryEntry}
    (searched : listing.search name = .ok (.ok entry)) : entry ∈ listing.entries :=
  List.mem_of_find?_eq_some (Listing.find_of_search searched)

theorem enter_isDirectory (tree : Tree volume device fuel) {place : Place}
    (isDirectory : tree.IsDirectory place.cluster) {name : List Char} {entry : DirectoryEntry}
    (searched : (tree.listing place.cluster).search name = .ok (.ok entry))
    (directory : entry.fileType = .directory) :
    tree.IsDirectory (volume.enter place entry).cluster := by
  rw [Volume.enter]
  split_ifs with root
  · exact tree.root
  · exact tree.closed place.cluster isDirectory entry (mem_of_search searched) directory root

theorem loop_eq_walk (tree : Tree volume device fuel) (limit : Nat) (residual : List Char)
    (enough : (pieces residual).length < limit) (place : Place)
    (isDirectory : tree.IsDirectory place.cluster) :
    Loop.run (volume.openBody device fuel) limit
        ⟨residual, getDirectory place.cluster, place.entry, place.parent⟩ =
      walk volume tree.listing place (pieces residual) := by
  induction limit generalizing residual place with
  | zero => cases enough
  | succ limit induction =>
    rw [Loop.run, Volume.openBody]
    rw [pieces] at enough ⊢
    by_cases finished : residual = []
    · subst finished
      rfl
    · have nonempty : ¬ residual.length = 0 := by simpa using finished
      rw [if_neg finished, List.length_cons] at enough
      have shorter := Nat.lt_of_succ_lt_succ enough
      simp only [if_neg finished, if_neg nonempty, walk]
      by_cases empty : (splitPath residual).1 = []
      · rw [if_pos (List.length_eq_zero_iff.mpr empty), if_pos empty]
        rfl
      · rw [if_neg (mt List.length_eq_zero_iff.mp empty), if_neg empty, tree.findEntry isDirectory]
        cases searched : (tree.listing place.cluster).search (splitPath residual).1 with
        | error fault => rfl
        | ok result =>
          cases result with
          | error error => cases error <;> rfl
          | ok entry =>
            cases kind : entry.fileType with
            | file =>
              simp only [Exec.ok_bind, kind]
              rfl
            | directory =>
              have entered := tree.enter_isDirectory isDirectory searched kind
              have later := induction _ shorter _ entered
              simp only [Exec.ok_bind, kind, tree.unwrapRoot]
              rw [← later, Volume.enter]
              split_ifs
              · rfl
              · rfl

def Opens (tree : Tree volume device fuel) (handle : OFileDirectory) (cluster : UInt32) : Prop :=
  (∃ dir, handle.dir = some dir ∧ dir.clusterStart = some cluster) ∧ tree.IsDirectory cluster

theorem reset_eq {dir : Directory} {cluster : UInt32} (start : dir.clusterStart = some cluster) :
    dir.reset = getDirectory cluster := by
  rw [Directory.reset, start, getDirectory]

theorem openPath_relative (tree : Tree volume device fuel) {handle : OFileDirectory}
    {cluster : UInt32} (opens : tree.Opens handle cluster) {path : List Char}
    (notSelf : path ≠ ['.']) (notParent : path ≠ ['.', '.'])
    (relative : findSeparator path ≠ some 0) (enough : (pieces path).length < fuel) :
    volume.openPath device fuel handle path =
      walk volume tree.listing ⟨cluster, handle.dirEnt, none⟩ (pieces path) := by
  rcases opens with ⟨⟨dir, isDir, start⟩, isDirectory⟩
  rw [← tree.loop_eq_walk fuel path enough ⟨cluster, handle.dirEnt, none⟩ isDirectory]
  simp only [Volume.openPath, if_neg notSelf, if_neg notParent, tree.unwrapRoot, Exec.ok_bind,
    if_pos relative, isDir, reset_eq start]

end Tree

/-! ## Resolution of paths -/

def joinPath : List (List Char) → List Char
  | [] => []
  | [component] => component
  | component :: rest => component ++ '/' :: joinPath rest

namespace Volume

def directoryOf (volume : Volume) (entry : DirectoryEntry) : UInt32 :=
  if entry.cluster = 0 then volume.rootCluster else entry.cluster

def object (volume : Volume) (entry : DirectoryEntry) : OFileDirectory :=
  match entry.fileType with
  | .file => .new entry (some (getFile entry.cluster entry.size)) none
  | .directory =>
    if entry.cluster = 0 then volume.rootPlace.handle
    else .new entry none (some (getDirectory entry.cluster))

/-- Every component is found in the directory that the one before it denotes. -/
inductive Resolves (volume : Volume) (listing : UInt32 → Listing) :
    UInt32 → List (List Char) → DirectoryEntry → Prop
  | last {cluster : UInt32} {component : List Char} {entry : DirectoryEntry} :
      (listing cluster).find component = some entry →
      Resolves volume listing cluster [component] entry
  | step {cluster : UInt32} {component : List Char} {rest : List (List Char)}
      {directory entry : DirectoryEntry} :
      (listing cluster).find component = some directory → directory.fileType = .directory →
      Resolves volume listing (volume.directoryOf directory) rest entry →
      Resolves volume listing cluster (component :: rest) entry

/-- A call succeeds exactly if there is an entry that resolves the path, with the
object that the entry denotes, and fails with an error otherwise. -/
def OpensResolved (volume : Volume) (result : Exec (Except Error OFileDirectory))
    (Resolves : DirectoryEntry → Prop) : Prop :=
  (∀ handle, result = .ok (.ok handle) →
    ∃ entry, Resolves entry ∧ { handle with pdirEnt := none } = volume.object entry) ∧
  (∀ entry, Resolves entry →
    ∃ handle, result = .ok (.ok handle) ∧ { handle with pdirEnt := none } = volume.object entry) ∧
  ((∀ entry, ¬ Resolves entry) → ∃ error, result = .ok (.error error))

/-- Where the pieces of a name lead: nowhere if one is missing, to the first regular file
otherwise, or else to the directory at their end or in front of an empty one. No search
meets a fault. -/
def PiecesLead (volume : Volume) (listing : UInt32 → Listing) :
    Place → List (List Char) → Option OFileDirectory → Prop
  | place, [], result => result = some { place.handle with pdirEnt := none }
  | place, piece :: rest, result =>
    if piece = [] then result = some { place.handle with pdirEnt := none }
    else (listing place.cluster).Searchable piece ∧
      match (listing place.cluster).find piece with
      | none => result = none
      | some entry =>
        match entry.fileType with
        | .file => result = some (volume.object entry)
        | .directory => PiecesLead volume listing (volume.enter place entry) rest result

/-- Where a path leads: no search meets a fault, no component before the last one is
a regular file, and if the last component has backslashes, then its parts lead to what
has the whole name. -/
def PathCovered (volume : Volume) (listing : UInt32 → Listing) :
    Place → List (List Char) → Prop
  | _, [] => True
  | place, [last] =>
    if '\\' ∈ last then
      volume.PiecesLead listing place (pieces last)
        (((listing place.cluster).find last).map volume.object)
    else (listing place.cluster).Searchable last
  | place, component :: rest =>
    (listing place.cluster).Searchable component ∧
      ∀ entry, (listing place.cluster).find component = some entry →
        entry.fileType = .directory ∧ PathCovered volume listing (volume.enter place entry) rest

end Volume

theorem findIdx?_absent {separator : Char} {text : List Char} (absent : separator ∉ text) :
    text.findIdx? (fun character => character = separator) = none := by
  rw [List.findIdx?_eq_none_iff]
  intro character member
  rw [decide_eq_false_iff_not]
  rintro rfl
  exact absent member

theorem findSeparator_slash (plain : '/' ∉ component)
    (rest : List Char) : findSeparator (component ++ '/' :: rest) = some component.length := by
  rw [findSeparator, List.findIdx?_append, findIdx?_absent plain]
  simp [List.findIdx?_cons]

theorem pieces_slash (plain : '/' ∉ component) (rest : List Char) :
    pieces (component ++ '/' :: rest) = component :: pieces rest := by
  rw [pieces, if_neg (by simp), splitPath, findSeparator_slash plain]
  simp

theorem pieces_plain (nonempty : component ≠ [])
    (noSlash : '/' ∉ component) (noBackslash : '\\' ∉ component) :
    pieces component = [component] := by
  rw [pieces, if_neg nonempty, splitPath, findSeparator, findIdx?_absent noSlash,
    findIdx?_absent noBackslash]
  simp [pieces]

namespace Volume

variable {volume : Volume} {listing : UInt32 → Listing} {place : Place}

theorem enter_cluster (volume : Volume) (place : Place) (entry : DirectoryEntry) :
    (volume.enter place entry).cluster = volume.directoryOf entry := by
  rw [enter, directoryOf]
  split_ifs
  · rfl
  · rfl

theorem enter_handle (volume : Volume) (place : Place) {entry : DirectoryEntry}
    (directory : entry.fileType = .directory) :
    { (volume.enter place entry).handle with pdirEnt := none } = volume.object entry := by
  rw [enter, object, directory]
  dsimp only
  split_ifs
  · rfl
  · rfl

variable {component : List Char} {rest : List (List Char)}

theorem resolves_single {cluster : UInt32} {entry : DirectoryEntry} :
    Resolves volume listing cluster [component] entry ↔
      (listing cluster).find component = some entry := by
  constructor
  · intro resolves
    cases resolves with
    | last found => exact found
    | step _ _ rest => cases rest
  · exact .last

theorem resolves_cons {cluster : UInt32} {next : List Char} {entry : DirectoryEntry} :
    Resolves volume listing cluster (component :: next :: rest) entry ↔
      ∃ directory, (listing cluster).find component = some directory ∧
        directory.fileType = .directory ∧
        Resolves volume listing (volume.directoryOf directory) (next :: rest) entry := by
  constructor
  · intro resolves
    cases resolves with
    | step found directory later => exact ⟨_, found, directory, later⟩
  · rintro ⟨directory, found, isDirectory, later⟩
    exact .step found isDirectory later

theorem not_opensResolved_fault {fault : Fault} {Resolves : DirectoryEntry → Prop} :
    ¬ volume.OpensResolved (.error fault) Resolves := by
  rintro ⟨_, found, missing⟩
  by_cases resolved : ∃ entry, Resolves entry
  · rcases resolved with ⟨entry, resolves⟩
    rcases found entry resolves with ⟨handle, impossible, _⟩
    cases impossible
  · rcases missing (not_exists.mp resolved) with ⟨error, impossible⟩
    cases impossible

theorem opensResolved_error {error : Error} {Resolves : DirectoryEntry → Prop}
    (missing : ∀ entry, ¬ Resolves entry) :
    volume.OpensResolved (.ok (.error error)) Resolves :=
  ⟨nofun, fun entry resolves => absurd resolves (missing entry), fun _ => ⟨error, rfl⟩⟩

variable {handle : OFileDirectory} {target : Option DirectoryEntry}

theorem opensResolved_ok_iff :
    volume.OpensResolved (.ok (.ok handle)) (fun entry => target = some entry) ↔
      target.map volume.object = some { handle with pdirEnt := none } := by
  cases target with
  | none => simp [OpensResolved]
  | some entry => simp [OpensResolved, eq_comm]

theorem opensResolved_error_iff {error : Error} :
    volume.OpensResolved (.ok (.error error)) (fun entry => target = some entry) ↔
      target.map volume.object = none := by
  cases target with
  | none => simp [OpensResolved]
  | some entry => simp [OpensResolved]

theorem joinPath_cons (component next : List Char) (rest : List (List Char)) :
    joinPath (component :: next :: rest) = component ++ '/' :: joinPath (next :: rest) := rfl

theorem pathCovered_cons {next : List Char} :
    volume.PathCovered listing place (component :: next :: rest) ↔
      (listing place.cluster).Searchable component ∧
        ∀ entry, (listing place.cluster).find component = some entry →
          entry.fileType = .directory ∧
            volume.PathCovered listing (volume.enter place entry) (next :: rest) := Iff.rfl

section Walk

variable {component : List Char} {rest : List (List Char)} (nonempty : component ≠ [])
include nonempty

theorem walk_fault {fault : Fault}
    (searched : (listing place.cluster).search component = .error fault) :
    walk volume listing place (component :: rest) = .error fault := by
  simp only [walk, if_neg nonempty, searched]

theorem walk_error {error : Error}
    (searched : (listing place.cluster).search component = .ok (.error error)) :
    ∃ error, walk volume listing place (component :: rest) = .ok (.error error) := by
  simp only [walk, if_neg nonempty, searched]
  cases error with
  | endOfFile => exact ⟨_, rfl⟩
  | blockError => exact ⟨_, rfl⟩
  | unsupported => exact ⟨_, rfl⟩
  | notFound => exact ⟨_, rfl⟩
  | invalidOffset => exact ⟨_, rfl⟩

theorem walk_file {entry : DirectoryEntry}
    (searched : (listing place.cluster).search component = .ok (.ok entry))
    (file : entry.fileType = .file) :
    walk volume listing place (component :: rest) = .ok (.ok (volume.object entry)) := by
  simp only [walk, if_neg nonempty, searched, object, file]

theorem walk_directory {entry : DirectoryEntry}
    (searched : (listing place.cluster).search component = .ok (.ok entry))
    (directory : entry.fileType = .directory) :
    walk volume listing place (component :: rest) =
      walk volume listing (volume.enter place entry) rest := by
  simp only [walk, if_neg nonempty, searched, directory]

theorem walk_opened {opened : OFileDirectory}
    (walked : walk volume listing place (component :: rest) = .ok (.ok opened)) :
    ∃ entry, (listing place.cluster).search component = .ok (.ok entry) ∧
      ((entry.fileType = .file ∧ opened = volume.object entry) ∨
      (entry.fileType = .directory ∧
        walk volume listing (volume.enter place entry) rest = .ok (.ok opened))) := by
  cases searched : (listing place.cluster).search component with
  | error fault =>
    rw [walk_fault nonempty searched] at walked
    cases walked
  | ok result =>
    cases result with
    | error error =>
      rcases walk_error nonempty searched with ⟨other, failed⟩
      rw [failed] at walked
      cases walked
    | ok entry =>
      refine ⟨entry, rfl, ?_⟩
      cases kind : entry.fileType with
      | file =>
        rw [walk_file nonempty searched kind] at walked
        cases walked
        exact Or.inl ⟨rfl, rfl⟩
      | directory =>
        rw [walk_directory nonempty searched kind] at walked
        exact Or.inr ⟨rfl, walked⟩

end Walk

theorem walk_iff_piecesLead (parts : List (List Char)) (place : Place) :
    volume.OpensResolved (walk volume listing place parts) (fun entry => target = some entry) ↔
      volume.PiecesLead listing place parts (target.map volume.object) := by
  induction parts generalizing place with
  | nil => exact opensResolved_ok_iff
  | cons piece rest induction =>
    rw [PiecesLead]
    by_cases empty : piece = []
    · rw [walk, if_pos empty, if_pos empty]
      exact opensResolved_ok_iff
    · rw [if_neg empty]
      cases searched : (listing place.cluster).search piece with
      | error fault =>
        rw [walk_fault empty searched, Listing.Searchable, searched]
        exact iff_of_false not_opensResolved_fault nofun
      | ok result =>
        have searchable : (listing place.cluster).Searchable piece := ⟨result, searched⟩
        rw [and_iff_right searchable, Listing.find_of_search searched]
        cases result with
        | error error =>
          obtain ⟨error, walked⟩ := walk_error empty searched
          rw [walked]
          exact opensResolved_error_iff
        | ok entry =>
          simp only [Except.toOption]
          cases kind : entry.fileType with
          | file =>
            rw [walk_file empty searched kind, opensResolved_ok_iff]
            simp only [object, kind]
            rfl
          | directory =>
            rw [walk_directory empty searched kind]
            exact induction (volume.enter place entry)

theorem walk_last_iff (nonempty : component ≠ []) :
    volume.OpensResolved (walk volume listing place [component])
        (fun entry => (listing place.cluster).find component = some entry) ↔
      (listing place.cluster).Searchable component := by
  rw [walk_iff_piecesLead, PiecesLead, if_neg nonempty]
  refine and_iff_left_of_imp fun _ => ?_
  cases (listing place.cluster).find component with
  | none => rfl
  | some entry =>
    dsimp only
    cases kind : entry.fileType with
    | file => rfl
    | directory => exact congrArg some (enter_handle volume place kind).symm

theorem walk_iff_pathCovered (components : List (List Char)) (nonempty : components ≠ [])
    (names : ∀ component ∈ components, component ≠ [] ∧ '/' ∉ component) (place : Place) :
    volume.OpensResolved (walk volume listing place (pieces (joinPath components)))
        (Resolves volume listing place.cluster components) ↔
      volume.PathCovered listing place components := by
  induction components generalizing place with
  | nil => exact absurd rfl nonempty
  | cons component rest induction =>
    rcases names component List.mem_cons_self with ⟨named, noSlash⟩
    cases rest with
    | nil =>
      have single : Resolves volume listing place.cluster [component] =
          fun entry => (listing place.cluster).find component = some entry :=
        funext fun entry => propext resolves_single
      rw [single, joinPath, PathCovered]
      split_ifs with backslash
      · exact walk_iff_piecesLead (pieces component) place
      · rw [pieces_plain named noSlash backslash]
        exact walk_last_iff named
    | cons next rest =>
      have later := induction (List.cons_ne_nil _ _)
        fun name member => names name (List.mem_cons_of_mem _ member)
      rw [joinPath_cons, pieces_slash noSlash, pathCovered_cons]
      cases searched : (listing place.cluster).search component with
      | error fault =>
        rw [walk_fault named searched, Listing.Searchable, searched]
        exact ⟨fun opens => absurd opens not_opensResolved_fault, nofun⟩
      | ok result =>
        have searchable : (listing place.cluster).Searchable component := ⟨result, searched⟩
        have found := Listing.find_of_search searched
        rw [and_iff_right searchable]
        cases result with
        | error error =>
          have missing : (listing place.cluster).find component = none := found
          obtain ⟨error, walked⟩ := walk_error named searched
          rw [walked]
          refine iff_of_true (opensResolved_error ?_) ?_
          · intro entry resolves
            simp [resolves_cons, missing] at resolves
          · intro entry impossible
            simp [missing] at impossible
        | ok entry =>
          have only : (listing place.cluster).find component = some entry := found
          have resolved : Resolves volume listing place.cluster
              (component :: next :: rest) = fun other =>
                entry.fileType = .directory ∧
                  Resolves volume listing (volume.directoryOf entry) (next :: rest)
                    other := by
            funext other
            simp [resolves_cons, only]
          rw [resolved]
          simp only [only, Option.some.injEq, forall_eq']
          cases kind : entry.fileType with
          | file =>
            rw [walk_file named searched kind]
            refine iff_of_false ?_ nofun
            rintro ⟨_, _, missing⟩
            rcases missing (fun _ impossible => nomatch impossible.1) with
              ⟨error, impossible⟩
            cases impossible
          | directory =>
            rw [walk_directory named searched kind, ← enter_cluster volume place]
            simpa only [true_and] using later (volume.enter place entry)

/-- Opening a path of names from a directory gives what the names resolve to, one
after the other, exactly if the path is covered: in particular no name before the last
one may be that of a regular file. -/
theorem openPath_resolved_iff (volume : Volume) (device : SectorDevice Unit) (fuel : Nat)
    (tree : Tree volume device fuel) (handle : OFileDirectory) (cluster : UInt32)
    (opens : tree.Opens handle cluster) (components : List (List Char))
    (nonempty : components ≠ [])
    (names : ∀ component ∈ components, component ≠ [] ∧ '/' ∉ component)
    (relative : findSeparator (joinPath components) ≠ some 0)
    (notSelf : joinPath components ≠ ['.']) (notParent : joinPath components ≠ ['.', '.'])
    (enough : (joinPath components).length < fuel) :
    volume.OpensResolved (volume.openPath device fuel handle (joinPath components))
        (volume.Resolves tree.listing cluster components) ↔
      volume.PathCovered tree.listing ⟨cluster, handle.dirEnt, none⟩ components := by
  rw [tree.openPath_relative opens notSelf notParent relative
    (Nat.lt_of_le_of_lt (length_pieces_le _) enough)]
  exact walk_iff_pathCovered components nonempty names ⟨cluster, handle.dirEnt, none⟩

end Volume

/-! ## A file in the root directory -/

namespace FileInRoot

def volume : Volume where
  start := 0
  last := 10
  bytesPerSector := 512
  fatType := .fat32
  sectorsPerCluster := 1
  firstFatSector := 0
  firstDataSector := 1
  rootDirSectors := 0
  rootCluster := 2

def content (sector : UInt64) : Sector :=
  if sector = 0 then Vector.replicate 512 0xff
  else Vector.ofFn fun index =>
    if index.val = 0 then 70 else if index.val < 12 then 32 else 0

def device : SectorDevice Unit := .reliable content

theorem finite : FiniteDirectory volume.toFilesystem content 2 [2] :=
  .single (by decide +kernel) (by decide)

def listing : Listing :=
  scanRecords (.ok .endOfFile) emptyName (directoryRecords volume.toFilesystem content [2])

def tree : Tree volume device 10 where
  fat32 := rfl
  positive := by decide
  listing _ := listing
  IsDirectory cluster := cluster = 2
  root := rfl
  lists cluster isRoot := by
    rw [isRoot]
    exact finite.lists (by decide)
  short _ _ := by decide +kernel
  closed _ _ := by decide +kernel

end FileInRoot

theorem Volume.openPath_resolved_iff_file_in_root :
    FileInRoot.volume.OpensResolved
      (FileInRoot.volume.openPath FileInRoot.device 10 FileInRoot.volume.rootPlace.handle ['F'])
      (FileInRoot.volume.Resolves FileInRoot.tree.listing 2 [['F']]) := by
  have opens : FileInRoot.tree.Opens FileInRoot.volume.rootPlace.handle 2 :=
    ⟨⟨_, rfl, rfl⟩, rfl⟩
  refine (openPath_resolved_iff _ _ _ FileInRoot.tree _ 2 opens [['F']] (by decide) (by decide)
    (by decide) (by decide) (by decide) (by decide)).mpr ?_
  rw [PathCovered, if_neg (by decide)]
  decide +kernel

/-- The path `F/x` leads behind a regular file, which is opened all the same. -/
theorem Volume.not_opensResolved_behind_file :
    ¬ FileInRoot.volume.OpensResolved
      (FileInRoot.volume.openPath FileInRoot.device 10 FileInRoot.volume.rootPlace.handle
        ['F', '/', 'x'])
      (FileInRoot.volume.Resolves FileInRoot.tree.listing 2 [['F'], ['x']]) := by
  rintro ⟨only, _⟩
  have isFile : (FileInRoot.listing.find ['F']).map DirectoryEntry.fileType = some .file := by
    decide +kernel
  have opens : (FileInRoot.volume.openPath FileInRoot.device 10
      FileInRoot.volume.rootPlace.handle ['F', '/', 'x']).map Except.isOk = .ok true := by
    decide +kernel
  cases opened : FileInRoot.volume.openPath FileInRoot.device 10
      FileInRoot.volume.rootPlace.handle ['F', '/', 'x'] with
  | error fault => simp [opened, Except.map] at opens
  | ok result =>
    cases result with
    | error error => simp [opened, Except.map, Except.isOk, Except.toBool] at opens
    | ok handle =>
      rcases only handle opened with ⟨entry, resolves, _⟩
      rcases resolves_cons.mp resolves with ⟨directory, found, isDirectory, _⟩
      simp only [FileInRoot.tree] at found
      simp [found, isDirectory] at isFile

end HypervisorFirmware.Fat
