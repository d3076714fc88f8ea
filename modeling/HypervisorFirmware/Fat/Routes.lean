import HypervisorFirmware.Fat.Separators

/-! # Routes

What a path comes to for `open`: paths with the same route are opened with the same
result on every volume and from every handle. -/

namespace HypervisorFirmware.Fat

/-- The components of a path that are looked up, which ends at the first empty one. -/
def components (residual : List Char) : List (List Char) :=
  (pieces residual).takeWhile fun component => component ≠ []

/-- An empty component ends the path, behind others. The directory that is opened then
does not know its parent. -/
def cutShort (residual : List Char) : Bool :=
  components residual ≠ [] && [] ∈ pieces residual

/-- Where a path leads: to the handle itself, to its parent, or along components from the
root directory or from that of the handle. -/
inductive Route
  | self
  | parent
  | along (absolute : Bool) (components : List (List Char)) (cut : Bool)
  deriving DecidableEq

def lookedUp (path : List Char) : List Char :=
  if findSeparator path ≠ some 0 then path else path.drop 1

def route (path : List Char) : Route :=
  if path = ['.'] then .self
  else if path = ['.', '.'] then .parent
  else .along (findSeparator path = some 0) (components (lookedUp path)) (cutShort (lookedUp path))

/-! ## Kinds of paths -/

theorem route_eq_self (path : List Char) : route path = .self ↔ path = ['.'] := by
  rw [route]
  split_ifs with self parent
  · simp [self]
  · simp [parent]
  · simp [self]

theorem route_eq_parent (path : List Char) : route path = .parent ↔ path = ['.', '.'] := by
  rw [route]
  split_ifs with self parent
  · simp [self]
  · simp [parent]
  · simp [parent]

variable {path residual : List Char}

theorem route_along (notSelf : path ≠ ['.']) (notParent : path ≠ ['.', '.']) :
    route path = .along (findSeparator path = some 0) (components (lookedUp path))
      (cutShort (lookedUp path)) := by
  rw [route, if_neg notSelf, if_neg notParent]

/-! ## Components -/

theorem components_nil : components [] = [] := by
  rw [components, pieces, if_pos rfl, List.takeWhile_nil]

theorem components_empty (nonempty : residual ≠ [])
    (empty : (splitPath residual).1 = []) : components residual = [] := by
  rw [components, pieces, if_neg nonempty, empty, List.takeWhile_cons_of_neg (by simp)]

theorem components_cons (nonempty : residual ≠ []) (named : (splitPath residual).1 ≠ []) :
    components residual = (splitPath residual).1 :: components (splitPath residual).2 := by
  rw [components, pieces, if_neg nonempty, List.takeWhile_cons_of_pos (by simpa using named),
    components]

theorem nil_mem_pieces (nonempty : residual ≠ []) : [] ∈ pieces residual ↔
      (splitPath residual).1 = [] ∨ [] ∈ pieces (splitPath residual).2 := by
  rw [pieces, if_neg nonempty, List.mem_cons, eq_comm]

theorem components_cases (residual : List Char) :
    (components residual = [] ∧ (residual = [] ∨ (splitPath residual).1 = [])) ∨
      (residual ≠ [] ∧ (splitPath residual).1 ≠ [] ∧ components residual =
        (splitPath residual).1 :: components (splitPath residual).2) := by
  by_cases finished : residual = []
  · rw [finished]
    exact .inl ⟨components_nil, .inl rfl⟩
  · by_cases empty : (splitPath residual).1 = []
    · exact .inl ⟨components_empty finished empty, .inr empty⟩
    · exact .inr ⟨finished, empty, components_cons finished empty⟩

theorem route_eq_nil (same : route path = route []) : path = [] := by
  by_contra nonempty
  have empty : route [] = .along false [] false := by
    rw [route_along (by decide) (by decide), lookedUp, if_pos (by decide), components_nil, cutShort,
      components_nil]
    rfl
  rw [empty, route] at same
  split_ifs at same
  rw [Route.along.injEq, decide_eq_false_iff_not, lookedUp] at same
  have relative := same.1
  rw [if_pos relative] at same
  rcases components_cases path with ⟨_, finished | unnamed⟩ | ⟨_, _, more⟩
  · exact nonempty finished
  · rw [splitPath] at unnamed
    split at unnamed
    · exact nonempty unnamed
    · rename_i index found
      rcases List.take_eq_nil_iff.mp unnamed with zero | finished
      · exact relative (by rw [found, zero])
      · exact nonempty finished
  · rw [more] at same
    cases same.2.1

/-! ## Looking up -/

variable {volume : Volume} {device : SectorDevice Unit} {fuel : Nat}

theorem openBody_end (ended : components residual = [])
    (dir : Directory) (entry : DirectoryEntry) (parent : Option DirectoryEntry) :
    volume.openBody device fuel ⟨residual, dir, entry, parent⟩ =
      .ok (.inr (.ok ⟨entry, none, some dir, if [] ∈ pieces residual then none else parent⟩)) := by
  rcases components_cases residual with ⟨_, finished⟩ | ⟨_, _, more⟩
  · by_cases nothing : residual = []
    · rw [nothing, pieces, if_pos rfl]
      rfl
    · have empty := finished.resolve_left nothing
      rw [if_pos ((nil_mem_pieces nothing).mpr (.inl empty)), Volume.openBody]
      simp only [List.length_eq_zero_iff, if_neg nothing, if_pos empty]
      rfl
  · rw [ended] at more
    cases more

theorem openFound_residual (dir : Directory) (entry : DirectoryEntry)
    (parent : Option DirectoryEntry) (found : Except Error DirectoryEntry) :
    (∃ outcome, ∀ path residual,
        volume.openFound ⟨path, dir, entry, parent⟩ residual found = outcome) ∨
      ∃ dir' entry' parent', ∀ path residual,
        volume.openFound ⟨path, dir, entry, parent⟩ residual found =
          .ok (.inl ⟨residual, dir', entry', parent'⟩) := by
  rcases found with error | de
  · cases error <;> exact .inl ⟨_, fun _ _ => rfl⟩
  · cases kind : de.fileType with
    | file =>
      simp only [Volume.openFound, kind]
      exact .inl ⟨_, fun _ _ => rfl⟩
    | directory =>
      simp only [Volume.openFound, kind]
      split_ifs
      · cases volume.unwrapRoot with
        | error fault => exact .inl ⟨_, fun _ _ => rfl⟩
        | ok root =>
          simp only [Exec.ok_bind]
          cases root.dir with
          | none => exact .inl ⟨_, fun _ _ => rfl⟩
          | some dir => exact .inr ⟨_, _, _, fun _ _ => rfl⟩
      · exact .inr ⟨_, _, _, fun _ _ => rfl⟩

theorem loop_congr (limit : Nat) {other : List Char}
    (same : components residual = components other) (dir : Directory) (entry : DirectoryEntry)
    (parent : Option DirectoryEntry)
    (ends : (components residual = [] ∧ parent = none) ∨
      ([] ∈ pieces residual ↔ [] ∈ pieces other)) :
    Loop.run (volume.openBody device fuel) limit ⟨residual, dir, entry, parent⟩ =
      Loop.run (volume.openBody device fuel) limit ⟨other, dir, entry, parent⟩ := by
  induction limit generalizing residual other dir entry parent with
  | zero => rfl
  | succ limit induction =>
    rw [Loop.run, Loop.run]
    rcases components_cases residual with ⟨ended, _⟩ | ⟨nonempty, named, more⟩
    · rw [openBody_end ended, openBody_end (same.symm.trans ended)]
      rcases ends with ⟨_, none⟩ | ends
      · simp only [none, ite_self]
      · simp only [ends]
    · rcases components_cases other with ⟨ended, _⟩ | ⟨nonempty', named', more'⟩
      · rw [more, ended] at same
        cases same
      · rw [more, more', List.cons.injEq] at same
        have later : [] ∈ pieces (splitPath residual).2 ↔ [] ∈ pieces (splitPath other).2 := by
          rcases ends with ⟨ended, _⟩ | ends
          · rw [ended] at more
            cases more
          · rw [nil_mem_pieces nonempty, nil_mem_pieces nonempty'] at ends
            simpa only [named, named', false_or] using ends
        -- Both iterations look for the same component.
        rw [openBody_eq, openBody_eq]
        simp only [List.length_eq_zero_iff, if_neg nonempty, if_neg nonempty', if_neg named',
          same.1]
        cases findEntry volume.toFilesystem device fuel (splitPath other).1 dir with
        | error fault => rfl
        | ok found =>
          rw [Exec.ok_bind, Exec.ok_bind]
          rcases openFound_residual dir entry parent found with
            ⟨outcome, always⟩ | ⟨dir', entry', parent', goesOn⟩
          · rw [always, always]
          · rw [goesOn, goesOn]
            exact induction same.2 dir' entry' parent' (.inr later)

theorem cutShort_eq {other : List Char} (some : components residual ≠ [])
    (same : components residual = components other) :
    cutShort residual = cutShort other ↔ ([] ∈ pieces residual ↔ [] ∈ pieces other) := by
  simp [cutShort, ← same, some]

theorem openFrom_congr_components {other : List Char}
    (same : components residual = components other) (cut : cutShort residual = cutShort other)
    (handle : OFileDirectory) :
    volume.openFrom device fuel handle residual = volume.openFrom device fuel handle other := by
  rw [Volume.openFrom, Volume.openFrom]
  cases handle.dir with
  | none => rfl
  | some dir =>
    apply loop_congr fuel same
    by_cases nothing : components residual = []
    · exact .inl ⟨nothing, rfl⟩
    · exact .inr ((cutShort_eq nothing same).mp cut)

theorem openPath_lookedUp (notSelf : path ≠ ['.'])
    (notParent : path ≠ ['.', '.']) (handle : OFileDirectory) :
    volume.openPath device fuel handle path = volume.unwrapRoot >>= fun root =>
      volume.openFrom device fuel (if findSeparator path = some 0 then root else handle)
        (lookedUp path) := by
  rw [openPath_eq notSelf notParent, lookedUp]
  simp only [ne_eq, ite_not]
  congr 1
  funext root
  split_ifs
  · rfl
  · rfl

theorem openPath_route {other : List Char} (same : route path = route other)
    (handle : OFileDirectory) :
    volume.openPath device fuel handle path = volume.openPath device fuel handle other := by
  by_cases self : path = ['.']
  · rw [(route_eq_self path).mpr self, eq_comm, route_eq_self] at same
    rw [self, same]
  · by_cases parent : path = ['.', '.']
    · rw [(route_eq_parent path).mpr parent, eq_comm, route_eq_parent] at same
      rw [parent, same]
    · have notSelf : other ≠ ['.'] := by
        rwa [Ne, ← route_eq_self, ← same, route_eq_self]
      have notParent : other ≠ ['.', '.'] := by
        rwa [Ne, ← route_eq_parent, ← same, route_eq_parent]
      rw [route_along self parent, route_along notSelf notParent, Route.along.injEq,
        decide_eq_decide] at same
      rw [openPath_lookedUp self parent, openPath_lookedUp notSelf notParent]
      simp only [same.1, openFrom_congr_components same.2.1 same.2.2]

end HypervisorFirmware.Fat
