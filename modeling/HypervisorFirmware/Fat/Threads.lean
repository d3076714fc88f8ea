import HypervisorFirmware.Fat.Routes

/-! # Telling routes apart

On a volume with a row of directories, each of which has the next one as its only entry,
the last one is opened by the paths of one route only. -/

namespace HypervisorFirmware.Fat

/-! ## Directories in a row -/

/-- Directories that follow each other under these names. Each has the next one as its
only entry, and the last one is empty. `above` is an entry that none of them has. -/
inductive Thread (volume : Volume) (listing : UInt32 → Listing) (above : DirectoryEntry) :
    Place → List (List Char) → Place → Prop
  | ended {place : Place} :
      (∀ name, (listing place.cluster).search name = .ok (.error .endOfFile)) →
      Thread volume listing above place [] place
  | step {place last : Place} {name : List Char} {rest : List (List Char)}
      {entry : DirectoryEntry} :
      (∀ other, (listing place.cluster).search other =
        if other = name then .ok (.ok entry) else .ok (.error .endOfFile)) →
      name ≠ [] → entry.fileType = .directory → entry.cluster ≠ 0 → entry ≠ above →
      place.cluster ≠ last.cluster →
      Thread volume listing above ⟨entry.cluster, entry, some place.entry⟩ rest last →
      Thread volume listing above place (name :: rest) last

def Place.reached (place : Place) (cut : Bool) : OFileDirectory :=
  ⟨place.entry, none, some (getDirectory place.cluster), if cut then none else place.parent⟩

namespace Thread

variable {volume : Volume} {listing : UInt32 → Listing} {above : DirectoryEntry}
  {place last : Place} {names : List (List Char)}

variable {residual : List Char}

theorem walk_end (place : Place) (ended : components residual = []) :
    walk volume listing place (pieces residual) =
      .ok (.ok (place.reached ([] ∈ pieces residual))) := by
  rcases components_cases residual with ⟨_, finished⟩ | ⟨_, _, more⟩
  · by_cases nothing : residual = []
    · rw [nothing, pieces, if_pos rfl]
      rfl
    · have empty := finished.resolve_left nothing
      rw [pieces, if_neg nothing, empty, walk, if_pos rfl]
      simp [Place.reached, Place.handle]
  · rw [ended] at more
    cases more

section

variable (thread : Thread volume listing above place names last)

include thread

theorem walk (same : components residual = names) :
    Fat.walk volume listing place (pieces residual) =
      .ok (.ok (last.reached ([] ∈ pieces residual))) := by
  induction thread generalizing residual with
  | ended _ => exact walk_end _ same
  | step searched named directory nonzero _ _ _ induction =>
    rcases components_cases residual with ⟨ended, _⟩ | ⟨nonempty, component, more⟩
    · rw [ended] at same
      cases same
    · rw [more, List.cons.injEq] at same
      have found := searched (splitPath residual).1
      rw [if_pos same.1] at found
      have later := induction same.2
      simp only [nil_mem_pieces nonempty, component, false_or]
      rwa [pieces, if_neg nonempty, Volume.walk_directory component found directory,
        Volume.enter, if_neg nonzero]

theorem components_eq {handle : OFileDirectory}
    (walked : Fat.walk volume listing place (pieces residual) = .ok (.ok handle))
    (there : handle.dir = some (getDirectory last.cluster)) : components residual = names := by
  induction thread generalizing residual with
  | @ended place searched =>
    rcases components_cases residual with ⟨ended, _⟩ | ⟨nonempty, component, _⟩
    · exact ended
    · obtain ⟨error, failed⟩ := Volume.walk_error component (searched _)
      rw [pieces, if_neg nonempty, failed] at walked
      cases walked
  | @step place last name rest entry searched named directory nonzero _ apart _ induction =>
    rcases components_cases residual with ⟨ended, _⟩ | ⟨nonempty, component, more⟩
    · rw [walk_end _ ended] at walked
      cases walked
      have same : getDirectory place.cluster = getDirectory last.cluster := Option.some.inj there
      exact absurd (Option.some.inj (congrArg Directory.cluster same)) apart
    · have found := searched (splitPath residual).1
      by_cases first : (splitPath residual).1 = name
      · rw [if_pos first] at found
        rw [pieces, if_neg nonempty, Volume.walk_directory component found directory,
          Volume.enter, if_neg nonzero] at walked
        rw [more, first, induction walked there]
      · rw [if_neg first] at found
        obtain ⟨error, failed⟩ := Volume.walk_error component found
        rw [pieces, if_neg nonempty, failed] at walked
        cases walked

theorem last_cases :
    (names = [] ∧ last = place) ∨
      (names ≠ [] ∧ place.cluster ≠ last.cluster ∧ last.entry ≠ above ∧ last.parent ≠ none) := by
  induction thread with
  | ended _ => exact .inl ⟨rfl, rfl⟩
  | step _ _ _ _ other apart _ induction =>
    refine .inr ⟨by simp, apart, ?_⟩
    rcases induction with ⟨_, rfl⟩ | ⟨_, _, entry, parent⟩
    · exact ⟨other, by simp⟩
    · exact ⟨entry, parent⟩

theorem search_cases (name : List Char) :
    (listing place.cluster).search name = .ok (.error .endOfFile) ∨
      ∃ entry rest, names = name :: rest ∧
        (listing place.cluster).search name = .ok (.ok entry) ∧
        entry.fileType = .directory ∧ entry.cluster ≠ 0 := by
  cases thread with
  | ended searched => exact .inl (searched name)
  | @step _ _ next rest entry searched _ directory nonzero _ _ _ =>
    have found := searched name
    by_cases same : name = next
    · rw [if_pos same] at found
      rw [same] at found ⊢
      exact .inr ⟨entry, rest, rfl, found, directory, nonzero⟩
    · rw [if_neg same] at found
      exact .inl found

end

theorem reached_eq (thread : Thread volume listing above place [] last) {handle : OFileDirectory}
    (walked : Fat.walk volume listing place (pieces residual) = .ok (.ok handle)) :
    handle = place.reached ([] ∈ pieces residual) := by
  cases thread with
  | ended searched =>
    rcases components_cases residual with ⟨ended, _⟩ | ⟨nonempty, component, _⟩
    · rw [walk_end _ ended] at walked
      cases walked
      rfl
    · obtain ⟨error, failed⟩ := Volume.walk_error component (searched _)
      rw [pieces, if_neg nonempty, failed] at walked
      cases walked

theorem returns (thread : Thread volume listing above place [] last) (residual : List Char) :
    ∃ result, Fat.walk volume listing place (pieces residual) = .ok result := by
  cases thread with
  | ended searched =>
    rcases components_cases residual with ⟨ended, _⟩ | ⟨nonempty, component, _⟩
    · exact ⟨_, walk_end _ ended⟩
    · obtain ⟨error, failed⟩ := Volume.walk_error component (searched _)
      rw [pieces, if_neg nonempty]
      exact ⟨_, failed⟩

end Thread

/-! ## A thread from the root or from a handle -/

/-- A volume with a thread of directories from the root directory or from that of a
handle, where the other of the two is empty. -/
structure Scene (volume : Volume) (device : SectorDevice Unit) (fuel : Nat) where
  tree : Tree volume device fuel
  start : Place
  above : DirectoryEntry
  parent : start.parent = some above
  isDirectory : tree.IsDirectory start.cluster
  absolute : Bool
  names : List (List Char)
  last : Place
  thread : Thread volume tree.listing above
    (if absolute then volume.rootPlace else ⟨start.cluster, start.entry, none⟩) names last
  idle : Thread volume tree.listing above
    (if absolute then ⟨start.cluster, start.entry, none⟩ else volume.rootPlace) []
    (if absolute then ⟨start.cluster, start.entry, none⟩ else volume.rootPlace)
  apart : (if absolute then start.cluster else volume.rootCluster) ≠ last.cluster

namespace Scene

variable {volume : Volume} {device : SectorDevice Unit} {fuel : Nat}
  (scene : Scene volume device fuel)

def origin (absolute : Bool) : Place :=
  if absolute then volume.rootPlace else ⟨scene.start.cluster, scene.start.entry, none⟩

theorem opens : scene.tree.Opens scene.start.handle scene.start.cluster :=
  ⟨⟨_, rfl, rfl⟩, scene.isDirectory⟩

theorem thread_origin : Thread volume scene.tree.listing scene.above
    (scene.origin scene.absolute) scene.names scene.last := scene.thread

theorem idle_origin : Thread volume scene.tree.listing scene.above
    (scene.origin !scene.absolute) [] (scene.origin !scene.absolute) := by
  have idle := scene.idle
  cases absolute : scene.absolute with
  | false =>
    rw [absolute] at idle
    exact idle
  | true =>
    rw [absolute] at idle
    exact idle

theorem origin_apart : (scene.origin !scene.absolute).cluster ≠ scene.last.cluster := by
  have apart := scene.apart
  cases absolute : scene.absolute with
  | false =>
    rw [absolute] at apart
    exact apart
  | true =>
    rw [absolute] at apart
    exact apart

variable {path : List Char}

theorem openPath_walk (notSelf : path ≠ ['.']) (notParent : path ≠ ['.', '.'])
    (enough : path.length < fuel) :
    volume.openPath device fuel scene.start.handle path =
      walk volume scene.tree.listing (scene.origin (findSeparator path = some 0))
        (pieces (lookedUp path)) := by
  have shorter : (lookedUp path).length ≤ path.length := by
    rw [lookedUp]
    split_ifs
    · exact Nat.le_refl _
    · rw [List.length_drop]
      omega
  have few : (pieces (lookedUp path)).length < fuel :=
    Nat.lt_of_le_of_lt (Nat.le_trans (length_pieces_le _) shorter) enough
  rw [openPath_lookedUp notSelf notParent, scene.tree.unwrapRoot, Exec.ok_bind]
  by_cases absolute : findSeparator path = some 0
  · rw [if_pos absolute, decide_eq_true absolute]
    exact scene.tree.loop_eq_walk fuel _ few volume.rootPlace scene.tree.root
  · rw [if_neg absolute, decide_eq_false absolute]
    exact scene.tree.loop_eq_walk fuel _ few ⟨scene.start.cluster, scene.start.entry, none⟩
      scene.isDirectory

theorem walk_of_opened (notSelf : path ≠ ['.'])
    (notParent : path ≠ ['.', '.']) {file : OFileDirectory}
    (opened : volume.openPath device fuel scene.start.handle path = .ok (.ok file)) :
    walk volume scene.tree.listing (scene.origin (findSeparator path = some 0))
      (pieces (lookedUp path)) = .ok (.ok file) := by
  rcases scene.tree.walk_of_openPath notSelf notParent opened with
    ⟨absolute, walked⟩ | ⟨relative, _, walked⟩
  · rw [decide_eq_true absolute, lookedUp, if_neg (not_not.mpr absolute)]
    exact walked
  · rw [decide_eq_false relative, lookedUp, if_pos relative]
    exact walked _ scene.opens

theorem openPath_missing (missing : (scene.tree.listing scene.start.cluster).search ['.', '.'] =
      .ok (.error .endOfFile)) :
    volume.openPath device fuel scene.start.handle ['.', '.'] = .ok (.error .endOfFile) := by
  rw [scene.tree.openParent_eq scene.opens, missing]

theorem openPath_found {entry : DirectoryEntry}
    (found : (scene.tree.listing scene.start.cluster).search ['.', '.'] = .ok (.ok entry))
    (directory : entry.fileType = .directory) (nonzero : entry.cluster ≠ 0) :
    volume.openPath device fuel scene.start.handle ['.', '.'] =
      .ok (.ok ⟨scene.above, none, some (getDirectory entry.cluster), none⟩) := by
  have known : scene.start.handle.pdirEnt = some scene.above := scene.parent
  rw [scene.tree.openParent_eq scene.opens, found]
  simp only [directory, if_true, if_neg nonzero, known]
  rfl

theorem names_of_parent {file : OFileDirectory}
    (opened : volume.openPath device fuel scene.start.handle ['.', '.'] = .ok (.ok file)) :
    scene.names ≠ [] ∧ file.dirEnt = scene.above := by
  have missed : (scene.tree.listing scene.start.cluster).search ['.', '.'] ≠
      .ok (.error .endOfFile) := by
    intro missing
    rw [scene.openPath_missing missing] at opened
    cases opened
  cases absolute : scene.absolute with
  | false =>
    have thread := scene.thread_origin
    rw [absolute] at thread
    rcases thread.search_cases ['.', '.'] with
      missing | ⟨entry, rest, names, found, directory, nonzero⟩
    · exact absurd missing missed
    · rw [scene.openPath_found found directory nonzero] at opened
      cases opened
      exact ⟨by simp [names], rfl⟩
  | true =>
    have idle := scene.idle_origin
    rw [absolute] at idle
    rcases idle.search_cases ['.', '.'] with missing | ⟨_, _, names, _⟩
    · exact absurd missing missed
    · cases names

theorem openPath_up (relative : scene.absolute = false) (up : scene.names = [['.', '.']]) :
    volume.openPath device fuel scene.start.handle ['.', '.'] =
      .ok (.ok ⟨scene.above, none, some (getDirectory scene.last.cluster), none⟩) := by
  have thread := scene.thread_origin
  rw [relative, up] at thread
  cases thread with
  | step searched _ directory nonzero _ _ ended =>
    rw [scene.openPath_found (searched ['.', '.']) directory nonzero]
    rcases ended.last_cases with ⟨_, last⟩ | ⟨something, _⟩
    · rw [last]
    · exact absurd rfl something

theorem origin_parent (absolute : Bool) : (scene.origin absolute).parent = none := by
  cases absolute with
  | false => rfl
  | true => rfl

theorem opened_cases (notSelf : path ≠ ['.']) (notParent : path ≠ ['.', '.'])
    {file : OFileDirectory}
    (opened : volume.openPath device fuel scene.start.handle path = .ok (.ok file)) :
    (decide (findSeparator path = some 0) = scene.absolute ∧
      walk volume scene.tree.listing (scene.origin scene.absolute) (pieces (lookedUp path)) =
        .ok (.ok file)) ∨
      ∃ cut, file = (scene.origin !scene.absolute).reached cut := by
  have walked := scene.walk_of_opened notSelf notParent opened
  by_cases same : decide (findSeparator path = some 0) = scene.absolute
  · rw [same] at walked
    exact .inl ⟨same, walked⟩
  · rw [Bool.eq_not_of_ne same] at walked
    exact .inr ⟨_, scene.idle_origin.reached_eq walked⟩

theorem reached_apart (cut : Bool) : ((scene.origin !scene.absolute).reached cut).dir ≠
      some (getDirectory scene.last.cluster) := by
  intro same
  have directories := congrArg Directory.cluster (Option.some.inj same)
  exact scene.origin_apart (Option.some.inj directories)

theorem thread_nothing (nothing : scene.names = []) (absolute : Bool) :
    ∃ last, Thread volume scene.tree.listing scene.above (scene.origin absolute) [] last := by
  by_cases same : absolute = scene.absolute
  · have thread := scene.thread_origin
    rw [nothing, ← same] at thread
    exact ⟨_, thread⟩
  · rw [Bool.eq_not_of_ne same]
    exact ⟨_, scene.idle_origin⟩

theorem openPath_returns (nothing : scene.names = []) (enough : path.length < fuel) :
    ∃ result, volume.openPath device fuel scene.start.handle path = .ok result := by
  by_cases self : path = ['.']
  · rw [self]
    exact ⟨_, rfl⟩
  · by_cases parent : path = ['.', '.']
    · obtain ⟨last, thread⟩ := scene.thread_nothing nothing false
      rcases thread.search_cases ['.', '.'] with missing | ⟨_, _, names, _⟩
      · rw [parent]
        exact ⟨_, scene.openPath_missing missing⟩
      · cases names
    · rw [scene.openPath_walk self parent enough]
      obtain ⟨last, thread⟩ := scene.thread_nothing nothing (findSeparator path = some 0)
      exact thread.returns _

theorem self_of_opened (nothing : scene.names = [])
    (opened : volume.openPath device fuel scene.start.handle path =
      .ok (.ok scene.start.handle)) : path = ['.'] := by
  by_contra notSelf
  have known : scene.start.handle.pdirEnt = some scene.above := scene.parent
  by_cases parent : path = ['.', '.']
  · rw [parent] at opened
    exact (scene.names_of_parent opened).1 nothing
  · obtain ⟨last, thread⟩ := scene.thread_nothing nothing (findSeparator path = some 0)
    have reached := thread.reached_eq (scene.walk_of_opened notSelf parent opened)
    rw [reached, Place.reached, scene.origin_parent, ite_self] at known
    cases known

theorem parent_of_opened (something : scene.names ≠ [])
    (opened : volume.openPath device fuel scene.start.handle path =
      .ok (.ok ⟨scene.above, none, some (getDirectory scene.last.cluster), none⟩)) :
    path = ['.', '.'] := by
  by_contra notParent
  by_cases self : path = ['.']
  · have same : volume.openPath device fuel scene.start.handle path =
        .ok (.ok scene.start.handle) := by
      rw [self]
      rfl
    rw [opened, Except.ok.injEq, Except.ok.injEq] at same
    have known : scene.start.handle.pdirEnt = some scene.above := scene.parent
    rw [← same] at known
    cases known
  · rcases scene.opened_cases self notParent opened with ⟨_, walked⟩ | ⟨cut, same⟩
    · have components := scene.thread_origin.components_eq walked rfl
      rw [scene.thread_origin.walk components, Except.ok.injEq, Except.ok.injEq] at walked
      rcases scene.thread_origin.last_cases with ⟨nothing, _⟩ | ⟨_, _, other, _⟩
      · exact something nothing
      · exact other (congrArg OFileDirectory.dirEnt walked)
    · have there := scene.reached_apart cut
      rw [← same] at there
      exact there rfl

theorem start_apart (something : scene.names ≠ []) : scene.start.cluster ≠ scene.last.cluster := by
  rcases scene.thread_origin.last_cases with ⟨nothing, _⟩ | ⟨_, apart, _⟩
  · exact absurd nothing something
  · have idle := scene.origin_apart
    cases absolute : scene.absolute with
    | false =>
      rw [absolute] at apart
      exact apart
    | true =>
      rw [absolute] at idle
      exact idle

theorem start_ne_reached (cut : Bool) : scene.start.handle ≠ scene.last.reached cut := by
  intro same
  rcases scene.thread_origin.last_cases with ⟨_, last⟩ | ⟨something, _⟩
  · have known : scene.start.handle.pdirEnt = some scene.above := scene.parent
    rw [same, Place.reached, last, scene.origin_parent, ite_self] at known
    cases known
  · have directories := Option.some.inj (congrArg OFileDirectory.dir same)
    exact scene.start_apart something (Option.some.inj (congrArg Directory.cluster directories))

theorem along_of_opened {cut : Bool} (opened : volume.openPath device fuel scene.start.handle path =
      .ok (.ok (scene.last.reached cut))) :
    path ≠ ['.'] ∧ path ≠ ['.', '.'] ∧ decide (findSeparator path = some 0) = scene.absolute ∧
      components (lookedUp path) = scene.names ∧
      (scene.names ≠ [] → (([] ∈ pieces (lookedUp path)) ↔ cut = true)) := by
  have notSelf : path ≠ ['.'] := by
    intro self
    rw [self] at opened
    exact scene.start_ne_reached cut (Except.ok.inj (Except.ok.inj opened))
  have notParent : path ≠ ['.', '.'] := by
    intro parent
    rw [parent] at opened
    obtain ⟨something, entry⟩ := scene.names_of_parent opened
    rcases scene.thread_origin.last_cases with ⟨nothing, _⟩ | ⟨_, _, other, _⟩
    · exact something nothing
    · exact other entry
  refine ⟨notSelf, notParent, ?_⟩
  rcases scene.opened_cases notSelf notParent opened with ⟨kind, walked⟩ | ⟨cut', same⟩
  · have components := scene.thread_origin.components_eq walked rfl
    refine ⟨kind, components, fun something => ?_⟩
    rw [scene.thread_origin.walk components, Except.ok.injEq, Except.ok.injEq] at walked
    rcases scene.thread_origin.last_cases with ⟨nothing, _⟩ | ⟨_, _, _, parent⟩
    · exact absurd nothing something
    · have parents := congrArg OFileDirectory.pdirEnt walked
      simp only [Place.reached, decide_eq_true_eq] at parents
      split_ifs at parents with empty short short
      · exact iff_of_true empty short
      · exact absurd parents.symm parent
      · exact absurd parents parent
      · exact iff_of_false empty short
  · have there := scene.reached_apart cut'
    rw [← same] at there
    exact absurd rfl there

end Scene

end HypervisorFirmware.Fat
