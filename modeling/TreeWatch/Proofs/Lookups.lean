import TreeWatch.Proofs.Spellings

/-!
# Following any path

A path is followed in two parts: all names but the last have to lead to a directory (`Disk.enter`),
and what stands there under the last name is what the path names. The first part says where the
path leads, whatever the access; it passes over empty pieces and `.`, so it is the same for all
spellings of a path, and it depends on the directories and links of a disk only.

Main results:
  * `Disk.follow_append`: the two parts
  * `Disk.enter_loud`, `Path.steps_join`: pieces that say nothing
  * `Disk.SameWays.enter`: disks with the same directories and links
  * `Disk.enter_iff`: the paths that lead to directories
  * `Disk.locate_join`, `Path.EntryOf.names`: what the path of an entry in a directory names
-/

namespace TreeWatch

namespace Disk

/-- How far the names that have to lead to directories lead in one spelling. -/
inductive Stride where
  | arrived (dir : Place)
  | detour (dir : Place) (target : ByteString) (rest : List Name)
  | failed (fault : Fault)

/-- Follows names that have to lead to directories, up to a link. -/
def stride (d : Disk) : Place → List Name → Stride
  | place, [] => .arrived place
  | place, name :: rest =>
    if name = Route.here ∨ name = Route.slash then d.stride place rest
    else if name = Route.up then d.stride place.dropLast rest
    else if maxName < name.size then .failed .nameTooLong
    else
      match d.get? (place ++ [name]) with
      | none => .failed .notFound
      | some .dir => d.stride (place ++ [name]) rest
      | some (.link target) => .detour place target rest
      | some _ => .failed .notDirectory

/-- Follows names that have to lead to directories through at most `links` links. The answer is how
many links are left, and the directory. -/
def enter (d : Disk) : Nat → Place → List Name → Except Fault (Nat × Place)
  | links, place, names =>
    match d.stride place names with
    | .arrived dir => .ok (links, dir)
    | .failed fault => .error fault
    | .detour dir target rest =>
      let route := Route.ofByteString target
      match links with
      | 0 => .error .linkLoop
      | links + 1 => d.enter links (if route.absolute then [] else dir) (route.names ++ rest)

variable {d d' : Disk} {ending : Ending} {links left : Nat} {place dir : Place}
  {names more : List Name} {name : Name} {e : Entry}

/-- Names that others come after have to lead to directories. -/
theorem trail_append (hMore : more ≠ []) (hEnding : ending = .creation → more ≠ [Route.slash]) :
    d.trail ending place (names ++ more) =
      match d.stride place names with
      | .arrived dir => d.trail ending dir more
      | .detour dir target rest => .detour dir target (rest ++ more)
      | .failed fault => .failed fault := by
  induction names generalizing place with
  | nil => rfl
  | cons name rest ih =>
    -- others come after, so none of these names is the last one
    have hLast : rest ++ more ≠ [] := by simp [hMore]
    have hSlash : ¬ (ending = .creation ∧ rest ++ more = [Route.slash]) := by
      rintro ⟨hCreation, hEq⟩
      rcases List.append_eq_singleton_iff.mp hEq with ⟨-, hHere⟩ | ⟨-, hNone⟩
      · exact hEnding hCreation hHere
      · exact hMore hNone
    rw [List.cons_append, trail, stride, if_neg hSlash]
    dsimp only
    by_cases hQuiet : name = Route.here ∨ name = Route.slash
    · rw [if_pos hQuiet, if_pos hQuiet, ih]
    rw [if_neg hQuiet, if_neg hQuiet]
    by_cases hUp : name = Route.up
    · rw [if_pos hUp, if_pos hUp, ih]
    rw [if_neg hUp, if_neg hUp]
    by_cases hLong : maxName < name.size
    · rw [if_pos hLong, if_pos hLong]
    rw [if_neg hLong, if_neg hLong]
    cases hNext : d.get? (place ++ [name]) with
    | none => simp only [hLast, if_false]
    | some e =>
      cases e with
      | dir => exact ih
      | link target => simp only [hLast, false_and, if_false]
      | file contents | socket | device => simp only [hLast, if_false]

/-- **A path is followed in two parts.** -/
theorem follow_append (hMore : more ≠ []) (hEnding : ending = .creation → more ≠ [Route.slash]) :
    d.follow ending links place (names ++ more) =
      (d.enter links place names).bind fun (left, dir) => d.follow ending left dir more := by
  -- both parts share the links, and each link taken leaves one fewer
  induction links generalizing place names with
  | zero =>
    rw [follow.eq_def, enter.eq_def]
    dsimp only
    rw [trail_append hMore hEnding]
    cases d.stride place names with
    | arrived dir => exact (follow.eq_def d ending 0 dir more).symm
    | detour dir target rest => rfl
    | failed fault => rfl
  | succ links ih =>
    rw [follow.eq_def, enter.eq_def]
    dsimp only
    rw [trail_append hMore hEnding]
    cases d.stride place names with
    | arrived dir => exact (follow.eq_def d ending (links + 1) dir more).symm
    | detour dir target rest =>
      -- the names of the target come before those that were left
      dsimp only
      rw [← List.append_assoc]
      exact ih
    | failed fault => rfl

/-! ## Quiet names -/

/-- A stride without the quiet names that it leaves. -/
def Stride.loud : Stride → Stride
  | .detour dir target rest => .detour dir target (rest.filter fun name => !name.isQuiet)
  | other => other

theorem stride_loud : d.stride place (names.filter fun name => !name.isQuiet) =
    (d.stride place names).loud := by
  induction names generalizing place with
  | nil => rfl
  | cons name rest ih =>
    by_cases hQuiet : name = Route.here ∨ name = Route.slash
    · rw [List.filter_cons_of_neg (by simp [Name.isQuiet, hQuiet]), ih, stride, if_pos hQuiet]
    rw [List.filter_cons_of_pos (by simp [Name.isQuiet, hQuiet]), stride, stride, if_neg hQuiet,
      if_neg hQuiet]
    by_cases hUp : name = Route.up
    · rw [if_pos hUp, if_pos hUp, ih]
    rw [if_neg hUp, if_neg hUp]
    by_cases hLong : maxName < name.size
    · rw [if_pos hLong, if_pos hLong]
      rfl
    rw [if_neg hLong, if_neg hLong]
    cases d.get? (place ++ [name]) with
    | none => rfl
    | some e =>
      cases e with
      | dir => exact ih
      | link target => rfl
      | file contents | socket | device => rfl

/-- **Quiet names** make no difference to the directory. -/
theorem enter_loud : d.enter links place (names.filter fun name => !name.isQuiet) =
    d.enter links place names := by
  induction links generalizing place names with
  | zero =>
    rw [enter.eq_def, enter.eq_def]
    dsimp only
    rw [stride_loud]
    cases d.stride place names with
    | arrived dir => rfl
    | detour dir target rest => rfl
    | failed fault => rfl
  | succ links ih =>
    rw [enter.eq_def, enter.eq_def]
    dsimp only
    rw [stride_loud]
    cases d.stride place names with
    | arrived dir => rfl
    | detour dir target rest =>
      -- the names of the target are there in both, with their quiet ones
      dsimp only [Stride.loud]
      rw [← ih, ← @ih _ (_ ++ rest), List.filter_append, List.filter_append, List.filter_filter]
      simp only [Bool.and_self]
    | failed fault => rfl

/-! ## Directories and links -/

/-- No path leads on from a place: there is neither a directory nor a link. -/
structure Blocked (d : Disk) (place : Place) : Prop where
  noDir : d.get? place ≠ some .dir
  noLink : ∀ target, d.get? place ≠ some (.link target)

/-- Two disks that differ only where no path leads on. -/
structure SameWays (d d' : Disk) : Prop where
  home : d'.home = d.home
  ways : ∀ place, d'.get? place = d.get? place ∨ d.Blocked place ∧ d'.Blocked place

theorem SameWays.symm (h : d.SameWays d') : d'.SameWays d :=
  ⟨h.home.symm, fun place => (h.ways place).imp Eq.symm And.symm⟩

/-- Nobody gets through where no path leads on. -/
theorem Blocked.stride (h : d.Blocked (place ++ [name]))
    (hQuiet : ¬ (name = Route.here ∨ name = Route.slash)) (hUp : name ≠ Route.up) :
    ∃ fault, d.stride place (name :: more) = .failed fault := by
  rw [Disk.stride, if_neg hQuiet, if_neg hUp]
  split
  · exact ⟨_, rfl⟩
  · split
    · exact ⟨_, rfl⟩
    · next hDir => exact absurd hDir h.noDir
    · next target hLink => exact absurd hLink (h.noLink target)
    · exact ⟨_, rfl⟩

theorem SameWays.stride (h : d.SameWays d') (place : Place) (names : List Name) :
    d'.stride place names = d.stride place names ∨
      (∃ fault, d'.stride place names = .failed fault) ∧
        ∃ fault, d.stride place names = .failed fault := by
  induction names generalizing place with
  | nil => exact Or.inl rfl
  | cons name rest ih =>
    by_cases hQuiet : name = Route.here ∨ name = Route.slash
    · rw [Disk.stride, Disk.stride, if_pos hQuiet, if_pos hQuiet]
      exact ih place
    by_cases hUp : name = Route.up
    · rw [Disk.stride, Disk.stride, if_neg hQuiet, if_neg hQuiet, if_pos hUp, if_pos hUp]
      exact ih place.dropLast
    rcases h.ways (place ++ [name]) with hSame | ⟨hOld, hNew⟩
    · rw [Disk.stride, Disk.stride, if_neg hQuiet, if_neg hQuiet, if_neg hUp, if_neg hUp, hSame]
      split
      · exact Or.inl rfl
      · cases d.get? (place ++ [name]) with
        | none => exact Or.inl rfl
        | some e =>
          cases e with
          | dir => exact ih (place ++ [name])
          | link target | file contents | socket | device => exact Or.inl rfl
    · -- where the disks differ, nobody gets through on either
      exact Or.inr ⟨hNew.stride hQuiet hUp, hOld.stride hQuiet hUp⟩

/-- **Directories and links** alone say where names lead. -/
theorem SameWays.enter (h : d.SameWays d') (links : Nat) (place : Place) (names : List Name) :
    (d'.enter links place names).toOption = (d.enter links place names).toOption := by
  -- the faults need not be the same: a file may stand where there was nothing
  induction links generalizing place names with
  | zero =>
    rw [Disk.enter.eq_def, Disk.enter.eq_def]
    dsimp only
    rcases h.stride place names with hSame | ⟨⟨fault, hNew⟩, fault', hOld⟩
    · rw [hSame]
    · rw [hNew, hOld]
      rfl
  | succ links ih =>
    rw [Disk.enter.eq_def, Disk.enter.eq_def]
    dsimp only
    rcases h.stride place names with hSame | ⟨⟨fault, hNew⟩, fault', hOld⟩
    · rw [hSame]
      cases d.stride place names with
      | arrived dir | failed fault => rfl
      | detour dir target rest => exact ih _ _
    · rw [hNew, hOld]
      rfl

/-! ## Directories on the way -/

/-- A disk that is a tree, with a directory at home. -/
structure Sound (d : Disk) : Prop extends d.WellFormed where
  home : d.get? d.home = some .dir

instance (d : Disk) : Decidable d.Sound :=
  decidable_of_iff (d.WellFormed ∧ d.get? d.home = some .dir)
    ⟨fun ⟨hTree, hHome⟩ => ⟨hTree, hHome⟩, fun h => ⟨h.toWellFormed, h.home⟩⟩

/-- Above a directory there is a directory. -/
theorem WellFormed.dir_above (h : d.WellFormed) (hDir : d.get? place = some .dir) :
    d.get? place.dropLast = some .dir := by
  rcases List.eq_nil_or_concat place with rfl | ⟨front, last, rfl⟩
  · rfl
  · rw [List.concat_eq_append] at hDir ⊢
    rw [List.dropLast_concat]
    exact h.ancestor (by simp) hDir

/-- The link that a stride from a directory stops at lies in a directory. -/
theorem WellFormed.stride_detour (h : d.WellFormed) (hDir : d.get? place = some .dir)
    {target : ByteString} (hStride : d.stride place names = .detour dir target more) :
    d.get? dir = some .dir := by
  induction names generalizing place with
  | nil => cases hStride
  | cons name rest ih =>
    rw [stride] at hStride
    split at hStride
    · exact ih hDir hStride
    split at hStride
    · exact ih (h.dir_above hDir) hStride
    split at hStride
    · cases hStride
    split at hStride
    · cases hStride
    · next hNext => exact ih hNext hStride
    · cases hStride
      exact hDir
    · cases hStride

/-- So does the place that names from a directory lead to if they have to lead to directories. -/
theorem WellFormed.stride_dir (h : d.WellFormed) (hDir : d.get? place = some .dir)
    (hStride : d.stride place names = .arrived dir) : d.get? dir = some .dir := by
  induction names generalizing place with
  | nil =>
    cases hStride
    exact hDir
  | cons name rest ih =>
    rw [stride] at hStride
    split at hStride
    · exact ih hDir hStride
    split at hStride
    · exact ih (h.dir_above hDir) hStride
    split at hStride
    · cases hStride
    split at hStride
    · cases hStride
    · next hNext => exact ih hNext hStride
    · cases hStride
    · cases hStride

/-- Names lead to a directory by themselves, or by a link and one link fewer. -/
theorem enter_eq_ok : (∃ left, d.enter links place names = .ok (left, dir)) ↔
    d.stride place names = .arrived dir ∨
      ∃ fewer, links = fewer + 1 ∧ ∃ from' target rest,
        d.stride place names = .detour from' target rest ∧
          ∃ left, d.enter fewer (if (Route.ofByteString target).absolute then [] else from')
            ((Route.ofByteString target).names ++ rest) = .ok (left, dir) := by
  rw [enter.eq_def]
  cases hStride : d.stride place names with
  | arrived q => simp [hStride]
  | failed fault => simp [hStride]
  | detour q target rest => cases links <;> simp [hStride]

/-- Names lead to an entry by themselves, or by a link and one link fewer. -/
theorem follow_eq_entry : d.follow ending links place names = .ok (.entry dir) ↔
    d.trail ending place names = .arrived dir ∨
      ∃ fewer, links = fewer + 1 ∧ ∃ from' target rest,
        d.trail ending place names = .detour from' target rest ∧
          d.follow ending fewer (if (Route.ofByteString target).absolute then [] else from')
            ((Route.ofByteString target).names ++ rest) = .ok (.entry dir) := by
  rw [follow.eq_def]
  cases hTrail : d.trail ending place names with
  | arrived q => simp [hTrail]
  | vacant q name => simp [hTrail]
  | failed fault => simp [hTrail]
  | detour q target rest => cases links <;> simp [hTrail]

theorem WellFormed.enter_dir (h : d.WellFormed) (hDir : d.get? place = some .dir)
    (hEnter : ∃ left, d.enter links place names = .ok (left, dir)) : d.get? dir = some .dir := by
  induction links generalizing place names with
  | zero =>
    rcases enter_eq_ok.mp hEnter with hStride | ⟨fewer, hLinks, -⟩
    · exact h.stride_dir hDir hStride
    · cases hLinks
  | succ links ih =>
    rcases enter_eq_ok.mp hEnter with hStride | ⟨fewer, hLinks, q, target, rest, hStride, hMore⟩
    · exact h.stride_dir hDir hStride
    · -- the link is in a directory, and the names go on from there
      cases hLinks
      refine ih ?_ hMore
      split
      · rfl
      · exact h.stride_detour hDir hStride

/-! ## Paths to directories -/

/-- Nothing but a directory stands at a place. -/
def DirAt (d : Disk) (place : Place) : Prop :=
  (d.get? place).getD .dir = .dir

/-- Names that end in a directory lead there whether or not they have to. -/
theorem stride_iff : (d.DirAt dir →
      (d.stride place names = .arrived dir ↔ d.trail .target place names = .arrived dir)) ∧
    ∀ q target rest, d.stride place names = .detour q target rest ↔
      d.trail .target place names = .detour q target rest := by
  induction names generalizing place with
  | nil => simp [stride, trail]
  | cons name more ih =>
    rw [stride, trail, if_neg (show ¬ (Ending.target = .creation ∧ _) by simp)]
    by_cases hQuiet : name = Route.here ∨ name = Route.slash
    · rw [if_pos hQuiet, if_pos hQuiet]
      exact ih
    rw [if_neg hQuiet, if_neg hQuiet]
    by_cases hUp : name = Route.up
    · rw [if_pos hUp, if_pos hUp]
      exact ih
    rw [if_neg hUp, if_neg hUp]
    by_cases hLong : maxName < name.size
    · simp [hLong]
    rw [if_neg hLong, if_neg hLong]
    dsimp only
    cases hNext : d.get? (place ++ [name]) with
    | none => by_cases hMore : more = [] <;> simp [hMore]
    | some e =>
      cases e with
      | dir => exact ih
      | link target => simp
      | file contents | socket | device =>
        -- the last name may be that of a file, but no directory is found there
        by_cases hMore : more = []
        · simp only [hMore, if_true, reduceCtorEq, false_iff, iff_self, implies_true, and_true]
          rintro hDir hHere
          cases hHere
          simp [DirAt, hNext] at hDir
        · simp [hMore]

/-- **A path to a directory** is one whose names all have to lead to directories. -/
theorem enter_iff (hDir : d.DirAt dir) : (∃ left, d.enter links place names = .ok (left, dir)) ↔
    d.follow .target links place names = .ok (.entry dir) := by
  induction links generalizing place names with
  | zero =>
    rw [enter_eq_ok, follow_eq_entry, stride_iff.1 hDir]
    simp
  | succ links ih =>
    obtain ⟨hArrived, hDetour⟩ := @stride_iff d place dir names
    rw [enter_eq_ok, follow_eq_entry, hArrived hDir]
    simp only [Nat.add_right_cancel_iff, exists_eq_left', hDetour, ih]

theorem WellFormed.enter_iff (h : d.WellFormed) (hDir : d.get? place = some .dir) :
    (∃ left, d.enter links place names = .ok (left, dir)) ↔
      d.follow .target links place names = .ok (.entry dir) ∧ d.get? dir = some .dir := by
  constructor
  · intro hEnter
    have hHere := h.enter_dir hDir hEnter
    exact ⟨(Disk.enter_iff (by simp [DirAt, hHere])).mp hEnter, hHere⟩
  · rintro ⟨hFollow, hHere⟩
    exact (Disk.enter_iff (by simp [DirAt, hHere])).mpr hFollow

/-! ## Paths -/

/-- The place that a path starts from. -/
def start (d : Disk) (p : Path) : Place :=
  if p.isAbsolute then [] else d.home

/-- A path leads to a directory. -/
def Enters (d : Disk) (p : Path) (dir : Place) : Prop :=
  ∃ left, d.enter maxLinks (d.start p) p.steps = .ok (left, dir)

variable {p q : Path} {dir : Place} {s : String}

theorem Enters.of_sameAs (h : d.Enters p dir) (hSame : p.SameAs q) : d.Enters q dir := by
  unfold Enters start at h ⊢
  rwa [← hSame.steps, ← hSame.isAbsolute]

theorem Enters.of_sameWays (h : d.Enters p dir) (hWays : d.SameWays d') : d'.Enters p dir := by
  obtain ⟨left, hEnter⟩ := h
  have hStart : d'.start p = d.start p := by rw [start, start, hWays.home]
  have hSame := hWays.enter maxLinks (d.start p) p.steps
  rw [hEnter] at hSame
  refine ⟨left, ?_⟩
  rw [hStart]
  cases hNew : d'.enter maxLinks (d.start p) p.steps with
  | error fault => rw [hNew] at hSame; cases hSame
  | ok found =>
    rw [hNew] at hSame
    exact congrArg Except.ok (Option.some.inj hSame)

theorem Enters.unique {other : Place} (h : d.Enters p dir) (h' : d.Enters p other) :
    dir = other := by
  obtain ⟨left, hEnter⟩ := h
  obtain ⟨left', hEnter'⟩ := h'
  rw [hEnter] at hEnter'
  cases hEnter'
  rfl

theorem Sound.start_dir (h : d.Sound) (p : Path) : d.get? (d.start p) = some .dir := by
  unfold start
  split
  · rfl
  · exact h.home

theorem Sound.enters_dir (h : d.Sound) (hEnters : d.Enters p dir) : d.get? dir = some .dir := by
  obtain ⟨-, hDir⟩ := (h.toWellFormed.enter_iff (h.start_dir p)).mp hEnters
  exact hDir

/-- What stands in a directory under a name, or could. -/
def leaf (d : Disk) (dir : Place) (name : Name) : Spot :=
  if (d.get? (dir ++ [name])).isSome then .entry (dir ++ [name]) else .vacant dir name

/-- The last name of a path is not followed unless it is that of a link. -/
theorem follow_leaf (hName : IsName s) (hShort : (ByteString.text s).size ≤ maxName)
    (hLast : ending = .entry ∨ ∀ target, d.get? (dir ++ [.text s]) ≠ some (.link target)) :
    d.follow ending left dir [.text s] = .ok (d.leaf dir (.text s)) := by
  obtain ⟨hSame, hSaid, hUp⟩ := component?_eq_name hName.piece
  rw [hSame] at hSaid hUp
  rw [follow.eq_def]
  dsimp only
  rw [trail, if_neg hSaid, if_neg hUp, if_neg (by simp), if_neg (Nat.not_lt.mpr hShort), leaf]
  dsimp only
  cases hEntry : d.get? (dir ++ [.text s]) with
  | none => rfl
  | some e =>
    cases e with
    | dir => rfl
    | link target =>
      have hEnding : ending = .entry := hLast.resolve_right fun h => h target hEntry
      simp [hEnding]
    | file contents | socket | device => rfl

/-- A usable path is followed from where it starts. -/
theorem locate_eq (hUsable : p.Usable) (hSpelling : p.spelling ≠ "") : d.locate ending p.native =
    d.follow ending maxLinks (d.start p) (Route.ofByteString p.native).names := by
  have hNative : p.native ≠ .text "" := fun hEq => hSpelling (ByteString.text.inj hEq)
  unfold locate
  rw [if_neg hUsable.noNul, if_neg hNative, if_neg (Nat.not_le.mpr hUsable.short), start,
    ← p.route_native.1]

theorem join_ne_empty (p : Path) (hName : IsName s) : (p.join ⟨s⟩).spelling ≠ "" := by
  intro hEmpty
  have hComponents := Path.components_join p hName
  rw [Path.components, hEmpty] at hComponents
  simp [Path.componentsOf, Pieces.split] at hComponents

theorem follow_join (p : Path) (hName : IsName s) (hUsable : (p.join ⟨s⟩).Usable) :
    d.locate ending (p.join ⟨s⟩).native =
      (d.enter maxLinks (d.start p) p.steps).bind fun (left, dir) =>
        d.follow ending left dir [.text s] := by
  obtain ⟨names, hRoute, hSteps⟩ := p.route_join hName
  have hSlash : [ByteString.text s] ≠ [Route.slash] := by
    rintro hEq
    have hEmpty : s = "" := by simpa [Route.slash] using hEq
    exact hName.ne_nil (by rw [hEmpty]; rfl)
  have hStart : d.start (p.join ⟨s⟩) = d.start p := by
    unfold start
    rw [← (p.join ⟨s⟩).route_native.1, hRoute]
  rw [locate_eq hUsable (join_ne_empty p hName), hStart, hRoute, ← hSteps, enter_loud]
  exact follow_append (by simp) fun _ => hSlash

/-- **The path of an entry** in a directory names what stands there under its name. -/
theorem locate_join (hEnters : d.Enters p dir) (hName : IsName s)
    (hShort : (ByteString.text s).size ≤ maxName) (hUsable : (p.join ⟨s⟩).Usable)
    (hLast : ending = .entry ∨ ∀ target, d.get? (dir ++ [.text s]) ≠ some (.link target)) :
    d.locate ending (p.join ⟨s⟩).native = .ok (d.leaf dir (.text s)) := by
  obtain ⟨left, hEnter⟩ := hEnters
  rw [follow_join p hName hUsable, hEnter]
  exact follow_leaf hName hShort hLast

/-- A path that names something lies in a directory. -/
theorem enters_of_locate {spot : Spot} (hName : IsName s)
    (h : d.locate ending (p.join ⟨s⟩).native = .ok spot) :
    (p.join ⟨s⟩).Usable ∧ ∃ dir, d.Enters p dir := by
  have hUsable := usable_of_locate h
  refine ⟨hUsable, ?_⟩
  rw [follow_join p hName hUsable] at h
  cases hEnter : d.enter maxLinks (d.start p) p.steps with
  | error fault => rw [hEnter] at h; cases h
  | ok found => exact ⟨found.2, found.1, hEnter⟩

/-! ## Where links at the end lead -/

theorem find_eq_ok {path : ByteString} :
    d.find ending path = .ok place ↔ d.locate ending path = .ok (.entry place) := by
  unfold find
  cases d.locate ending path with
  | error fault => exact ⟨fun h => (by cases h), fun h => by cases h⟩
  | ok spot =>
    cases spot with
    | entry found => exact ⟨fun h => (by cases h; rfl), fun h => by cases h; rfl⟩
    | vacant found name => exact ⟨fun h => (by cases h), fun h => by cases h⟩

theorem nonempty_of_locate {spot : Spot} (h : d.locate ending p.native = .ok spot) :
    p.spelling ≠ "" := by
  intro hEmpty
  unfold locate Path.native at h
  rw [hEmpty] at h
  split at h
  · cases h
  · rw [if_pos rfl] at h
    cases h

/-- A path enters the directory that is found under it. -/
theorem Sound.enters_iff (h : d.Sound) (hUsable : p.Usable) (hSpelling : p.spelling ≠ "") :
    d.Enters p dir ↔ d.find .target p.native = .ok dir ∧ d.get? dir = some .dir := by
  rw [find_eq_ok, locate_eq hUsable hSpelling, Enters, ← p.route_native.2, enter_loud]
  exact h.toWellFormed.enter_iff (h.start_dir p)

/-- A listing is that of the directory that the path leads to. -/
theorem Sound.listed (h : d.Sound) {entries : List (Name × Entry)}
    (hList : d.list p = .ok entries) : ∃ dir, d.Enters p dir ∧ entries = d.children dir := by
  unfold list at hList
  cases hFind : d.find .target p.native with
  | error fault =>
    rw [hFind] at hList
    cases hList
  | ok dir =>
    simp only [hFind, bind, Except.bind] at hList
    split at hList
    · next hDir =>
      cases hList
      have hLocate := find_eq_ok.mp hFind
      exact ⟨dir, (h.enters_iff (usable_of_locate hLocate) (nonempty_of_locate hLocate)).mpr
        ⟨hFind, hDir⟩, rfl⟩
    · cases hList

/-- Where there is no link at the end, asking for its target makes no difference. -/
theorem trail_target (hNoLink : ∀ target, d.get? dir ≠ some (.link target)) :
    (d.trail .entry place names = .arrived dir → d.trail .target place names = .arrived dir) ∧
    ∀ q target rest, d.trail .entry place names = .detour q target rest →
      d.trail .target place names = .detour q target rest := by
  induction names generalizing place with
  | nil => exact ⟨id, fun q target rest => id⟩
  | cons name more ih =>
    rw [trail, trail, if_neg (show ¬ (Ending.target = .creation ∧ _) by simp),
      if_neg (show ¬ (Ending.entry = .creation ∧ _) by simp)]
    by_cases hQuiet : name = Route.here ∨ name = Route.slash
    · rw [if_pos hQuiet, if_pos hQuiet]
      exact ih
    rw [if_neg hQuiet, if_neg hQuiet]
    by_cases hUp : name = Route.up
    · rw [if_pos hUp, if_pos hUp]
      exact ih
    rw [if_neg hUp, if_neg hUp]
    by_cases hLong : maxName < name.size
    · rw [if_pos hLong, if_pos hLong]
      exact ⟨id, fun q target rest => id⟩
    rw [if_neg hLong, if_neg hLong]
    dsimp only
    cases hNext : d.get? (place ++ [name]) with
    | none => exact ⟨id, fun q target rest => id⟩
    | some e =>
      cases e with
      | dir => exact ih
      | file contents | socket | device => exact ⟨id, fun q target rest => id⟩
      | link target =>
        -- at the end the link itself would be found
        by_cases hMore : more = []
        · simp only [hMore, true_and, if_true]
          refine ⟨fun hHere => ?_, fun q target rest hDetour => by cases hDetour⟩
          cases hHere
          exact absurd hNext (hNoLink target)
        · simp only [hMore, false_and, if_false]
          exact ⟨id, fun q target rest => id⟩

theorem follow_target (hNoLink : ∀ target, d.get? dir ≠ some (.link target))
    (h : d.follow .entry links place names = .ok (.entry dir)) :
    d.follow .target links place names = .ok (.entry dir) := by
  induction links generalizing place names with
  | zero =>
    rcases follow_eq_entry.mp h with hTrail | ⟨fewer, hLinks, -⟩
    · exact follow_eq_entry.mpr (Or.inl ((trail_target hNoLink).1 hTrail))
    · cases hLinks
  | succ links ih =>
    rcases follow_eq_entry.mp h with hTrail | ⟨fewer, hLinks, q, target, rest, hTrail, hMore⟩
    · exact follow_eq_entry.mpr (Or.inl ((trail_target hNoLink).1 hTrail))
    · cases hLinks
      exact follow_eq_entry.mpr (Or.inr ⟨links, rfl, q, target, rest,
        (trail_target hNoLink).2 q target rest hTrail, ih hMore⟩)

/-- **What is no link itself** is found whether or not links are followed. -/
theorem find_target {path : ByteString} (h : d.find .entry path = .ok dir)
    (hNoLink : ∀ target, d.get? dir ≠ some (.link target)) : d.find .target path = .ok dir := by
  rw [find_eq_ok] at h ⊢
  unfold locate at h ⊢
  split
  · next hNul => rw [if_pos hNul] at h; cases h
  next hNul =>
  rw [if_neg hNul] at h
  split
  · next hEmpty => rw [if_pos hEmpty] at h; cases h
  next hEmpty =>
  rw [if_neg hEmpty] at h
  split
  · next hLong => rw [if_pos hLong] at h; cases h
  next hLong =>
  rw [if_neg hLong] at h
  exact follow_target hNoLink h

/-! ## What paths name -/

/-- Nothing stands where a trail found a name free. -/
theorem get?_of_trail {place found : Place} {names : List Name} {name : Name}
    (h : d.trail ending place names = .vacant found name) : d.get? (found ++ [name]) = none := by
  induction names generalizing place with
  | nil => cases h
  | cons first rest ih =>
    rw [trail] at h
    split at h
    · exact ih h
    split at h
    · exact ih h
    split at h
    · cases h
    split at h
    · cases h
    dsimp only at h
    split at h
    · next hFree =>
      split at h
      · cases h
        exact hFree
      · cases h
    · exact ih h
    · split at h <;> cases h
    · split at h <;> cases h

theorem get?_of_follow {place found : Place} {names : List Name} {name : Name}
    (h : d.follow ending left place names = .ok (.vacant found name)) :
    d.get? (found ++ [name]) = none := by
  induction left generalizing place names with
  | zero =>
    rw [follow.eq_def] at h
    dsimp only at h
    split at h
    · cases h
    · next hTrail =>
      cases h
      exact get?_of_trail hTrail
    · cases h
    · cases h
  | succ left ih =>
    rw [follow.eq_def] at h
    dsimp only at h
    split at h
    · cases h
    · next hTrail =>
      cases h
      exact get?_of_trail hTrail
    · cases h
    · exact ih h

/-- A name that a path found free is free. -/
theorem get?_of_vacant {path : ByteString} {found : Place} {name : Name}
    (h : d.locate ending path = .ok (.vacant found name)) : d.get? (found ++ [name]) = none := by
  unfold locate at h
  split at h
  · cases h
  split at h
  · cases h
  split at h
  · cases h
  exact get?_of_follow h

/-- A path names a place: that of an entry, be it a link, or a free one. -/
def Names (d : Disk) (p : Path) (place : Place) : Prop :=
  ∃ spot, d.locate .entry p.native = .ok spot ∧ spot.place = place

instance (d : Disk) (p : Path) (place : Place) : Decidable (d.Names p place) :=
  decidable_of_iff ((d.locate .entry p.native).toOption.map Spot.place = some place) <| by
    unfold Names
    cases d.locate .entry p.native with
    | error fault => simp [Except.toOption]
    | ok spot => simp [Except.toOption]

theorem Names.unique {other : Place} (h : d.Names p place) (h' : d.Names p other) :
    place = other := by
  obtain ⟨spot, hLocate, rfl⟩ := h
  obtain ⟨spot', hLocate', rfl⟩ := h'
  rw [hLocate] at hLocate'
  cases hLocate'
  rfl

theorem names_of_find (h : d.find .entry p.native = .ok place) : d.Names p place :=
  ⟨_, find_eq_ok.mp h, rfl⟩

@[simp] theorem place_leaf (dir : Place) (name : Name) :
    (d.leaf dir name).place = dir ++ [name] := by
  unfold leaf
  split <;> rfl

end Disk

/-- A path of an entry, in whatever spelling of the directory it is in. -/
structure Path.EntryOf (p root : Path) (s : String) : Prop where
  valid : Name.Valid (.text s)
  spelled : ∃ q : Path, q.SameAs root ∧ p = q.join ⟨s⟩

namespace Path.EntryOf

open Disk

variable {d d' : Disk} {p root : Path} {s : String} {dir place : Place} {ending : Ending}

theorem enters {spot : Spot} (h : p.EntryOf root s)
    (hLocate : d.locate ending p.native = .ok spot) : p.Usable ∧ ∃ dir, d.Enters root dir := by
  obtain ⟨hValid, q, hSame, rfl⟩ := h
  obtain ⟨hUsable, dir, hEnters⟩ := enters_of_locate hValid.isName hLocate
  exact ⟨hUsable, dir, hEnters.of_sameAs hSame⟩

/-- Its name is looked up in its directory. -/
theorem locate (h : p.EntryOf root s) (hEnters : d.Enters root dir) (hUsable : p.Usable)
    (hLast : ending = .entry ∨ ∀ target, d.get? (dir ++ [.text s]) ≠ some (.link target)) :
    d.locate ending p.native = .ok (d.leaf dir (.text s)) := by
  obtain ⟨hValid, q, hSame, rfl⟩ := h
  exact locate_join (hEnters.of_sameAs hSame.symm) hValid.isName hValid.short hUsable hLast

theorem find (h : p.EntryOf root s) (hEnters : d.Enters root dir) (hUsable : p.Usable)
    (hLast : ending = .entry ∨ ∀ target, d.get? (dir ++ [.text s]) ≠ some (.link target))
    {e : Entry} (hEntry : d.get? (dir ++ [.text s]) = some e) :
    d.find ending p.native = .ok (dir ++ [.text s]) := by
  rw [find_eq_ok, h.locate hEnters hUsable hLast, leaf, if_pos (by simp [hEntry])]

/-- **The place of an entry** is that of its directory with its name. -/
theorem names (h : p.EntryOf root s) :
    d.Names p place ↔ p.Usable ∧ ∃ dir, d.Enters root dir ∧ place = dir ++ [.text s] := by
  constructor
  · rintro ⟨spot, hLocate, rfl⟩
    obtain ⟨hUsable, dir, hEnters⟩ := h.enters hLocate
    rw [h.locate hEnters hUsable (Or.inl rfl)] at hLocate
    cases hLocate
    exact ⟨hUsable, dir, hEnters, place_leaf dir _⟩
  · rintro ⟨hUsable, dir, hEnters, rfl⟩
    exact ⟨_, h.locate hEnters hUsable (Or.inl rfl), place_leaf dir _⟩

/-- It depends on the directories and links only. -/
theorem names_of_sameWays (h : p.EntryOf root s) (hWays : d.SameWays d') :
    d'.Names p place ↔ d.Names p place := by
  rw [h.names, h.names]
  constructor
  · rintro ⟨hUsable, dir, hEnters, hPlace⟩
    exact ⟨hUsable, dir, hEnters.of_sameWays hWays.symm, hPlace⟩
  · rintro ⟨hUsable, dir, hEnters, hPlace⟩
    exact ⟨hUsable, dir, hEnters.of_sameWays hWays, hPlace⟩

theorem ne_nil (h : p.EntryOf root s) (hNames : d.Names p place) : place ≠ [] := by
  obtain ⟨-, dir, -, rfl⟩ := h.names.mp hNames
  simp

end Path.EntryOf

end TreeWatch
