import TreeWatch.Proofs.Lookups
import TreeWatch.Volume

/-!
# Looking names up

Whether a process may follow a path depends on the directories in which the names of the path are
looked up. Like where the path leads, these depend on the directories and links of a disk only. They
are not the same for all spellings of a path: `.` at the end is looked up in the directory that the
path leads to, and that is the only difference a quiet name makes. An entry that is taken away makes
none, but that links which led through it end there.

Main results:
  * `Disk.SameWays.searchedFor`: disks with the same directories and links
  * `Disk.searchedFor_of_erase`, `Disk.searchedFor_target`: a disk without an entry
  * `Disk.searched_loud`: quiet names
  * `Volume.admits_eq`: a path may be followed if it could be before, as long as no directory
    changes
-/

namespace TreeWatch

theorem Trail.detour?_eq_some {trail : Trail} {dir : Place} {target : ByteString}
    {rest : List Name} :
    trail.detour? = some (dir, target, rest) ↔ trail = .detour dir target rest := by
  cases trail <;> simp [Trail.detour?]

namespace Disk

variable {d d' : Disk} {ending : Ending} {links : Nat} {place dir : Place} {names : List Name}
  {name : Name} {path : ByteString}

/-! ## Directories and links -/

theorem SameWays.dir_iff (h : d.SameWays d') (place : Place) :
    d'.get? place = some .dir ↔ d.get? place = some .dir := by
  rcases h.ways place with hSame | ⟨hOld, hNew⟩
  · rw [hSame]
  · exact iff_of_false hNew.noDir hOld.noDir

/-- Up to the first link, only directories matter. -/
theorem lookedIn_congr (h : ∀ q, d'.get? q = some .dir ↔ d.get? q = some .dir) (place : Place)
    (names : List Name) : d'.lookedIn place names = d.lookedIn place names := by
  induction names generalizing place with
  | nil => rfl
  | cons name rest ih =>
    rw [lookedIn, lookedIn]
    simp only [ih, h]

/-- No trail goes on where no path leads on. -/
theorem Blocked.detour? (h : d.Blocked (place ++ [name]))
    (hQuiet : ¬ (name = Route.here ∨ name = Route.slash)) (hUp : name ≠ Route.up)
    (rest : List Name) : (d.trail ending place (name :: rest)).detour? = none := by
  rw [trail, if_neg hQuiet, if_neg hUp]
  split
  · rfl
  split
  · rfl
  dsimp only
  split
  · split <;> rfl
  · next hDir => exact absurd hDir h.noDir
  · next target hLink => exact absurd hLink (h.noLink target)
  · split <;> rfl

theorem SameWays.detour? (h : d.SameWays d') (ending : Ending) (place : Place)
    (names : List Name) :
    (d'.trail ending place names).detour? = (d.trail ending place names).detour? := by
  induction names generalizing place with
  | nil => rfl
  | cons name rest ih =>
    by_cases hQuiet : name = Route.here ∨ name = Route.slash
    · rw [trail, trail, if_pos hQuiet, if_pos hQuiet]
      exact ih place
    by_cases hUp : name = Route.up
    · rw [trail, trail, if_neg hQuiet, if_neg hQuiet, if_pos hUp, if_pos hUp]
      exact ih place.dropLast
    rcases h.ways (place ++ [name]) with hSame | ⟨hOld, hNew⟩
    · rw [trail, trail, if_neg hQuiet, if_neg hQuiet, if_neg hUp, if_neg hUp]
      by_cases hLast : ending = .creation ∧ rest = [Route.slash]
      · rw [if_pos hLast, if_pos hLast]
      rw [if_neg hLast, if_neg hLast]
      by_cases hLong : maxName < name.size
      · rw [if_pos hLong, if_pos hLong]
      rw [if_neg hLong, if_neg hLong]
      dsimp only
      rw [hSame]
      cases d.get? (place ++ [name]) with
      | none => rfl
      | some e =>
        cases e with
        | dir => exact ih (place ++ [name])
        | link target | file contents | socket | device => rfl
    · rw [hNew.detour? hQuiet hUp, hOld.detour? hQuiet hUp]

theorem SameWays.searched (h : d.SameWays d') (ending : Ending) (links : Nat) (place : Place)
    (names : List Name) :
    d'.searched ending links place names = d.searched ending links place names := by
  induction links generalizing place names with
  | zero => exact lookedIn_congr h.dir_iff place names
  | succ links ih =>
    rw [Disk.searched, Disk.searched, lookedIn_congr h.dir_iff, h.detour?]
    simp only [ih]

/-- **Directories and links** alone say where names are looked up. -/
theorem SameWays.searchedFor (h : d.SameWays d') (ending : Ending) (path : ByteString) :
    d'.searchedFor ending path = d.searchedFor ending path := by
  unfold Disk.searchedFor
  simp only [h.home, h.searched]

/-! ## Names are looked up in directories -/

theorem WellFormed.lookedIn_dir (h : d.WellFormed) (hDir : d.get? place = some .dir) :
    ∀ q ∈ d.lookedIn place names, d.get? q = some .dir := by
  induction names generalizing place with
  | nil => simp [lookedIn]
  | cons name rest ih =>
    rw [lookedIn]
    split
    · exact ih hDir
    split
    · exact List.forall_mem_cons.mpr ⟨hDir, ih hDir⟩
    split
    · exact List.forall_mem_cons.mpr ⟨hDir, ih (h.dir_above hDir)⟩
    split
    · next hNext => exact List.forall_mem_cons.mpr ⟨hDir, ih hNext⟩
    · exact List.forall_mem_singleton.mpr hDir

/-- The link that a trail stops at lies in a directory. -/
theorem WellFormed.trail_detour (h : d.WellFormed) (hDir : d.get? place = some .dir)
    {target : ByteString} {rest : List Name}
    (hTrail : d.trail ending place names = .detour dir target rest) : d.get? dir = some .dir := by
  induction names generalizing place with
  | nil => cases hTrail
  | cons name more ih =>
    rw [trail] at hTrail
    split at hTrail
    · exact ih hDir hTrail
    split at hTrail
    · exact ih (h.dir_above hDir) hTrail
    split at hTrail
    · cases hTrail
    split at hTrail
    · cases hTrail
    dsimp only at hTrail
    split at hTrail
    · split at hTrail <;> cases hTrail
    · next hNext => exact ih hNext hTrail
    · split at hTrail
      · cases hTrail
      · cases hTrail
        exact hDir
    · split at hTrail <;> cases hTrail

theorem WellFormed.searched_dir (h : d.WellFormed) (hDir : d.get? place = some .dir) :
    ∀ q ∈ d.searched ending links place names, d.get? q = some .dir := by
  induction links generalizing place names with
  | zero => exact h.lookedIn_dir hDir
  | succ links ih =>
    rw [searched]
    refine List.forall_mem_append.mpr ⟨h.lookedIn_dir hDir, ?_⟩
    cases hDetour : (d.trail ending place names).detour? with
    | none => simp
    | some found =>
      obtain ⟨dir, target, rest⟩ := found
      refine ih ?_
      split
      · rfl
      · exact h.trail_detour hDir (Trail.detour?_eq_some.mp hDetour)

theorem Sound.searchedFor_dir (h : d.Sound) :
    ∀ q ∈ d.searchedFor ending path, d.get? q = some .dir := by
  unfold searchedFor
  split
  · simp
  · refine h.toWellFormed.searched_dir ?_
    split
    · rfl
    · exact h.home

/-! ## A place that is cleared -/

section Erase

variable {gone : Place}

theorem dir_erase_iff (h : d.WellFormed) (hPlace : gone ≠ []) (hLeaf : d.get? gone ≠ some .dir)
    (q : Place) : (d.erase gone).get? q = some .dir ↔ d.get? q = some .dir := by
  rw [get?_erase h hPlace]
  by_cases hHere : q = gone
  · rw [if_pos hHere, hHere]
    exact iff_of_false (by simp) hLeaf
  · rw [if_neg hHere]

/-- A trail that goes on elsewhere does so without the place. -/
theorem detour?_of_erase (h : d.WellFormed) (hPlace : gone ≠ []) {target : ByteString}
    {rest : List Name}
    (hDetour : ((d.erase gone).trail ending place names).detour? = some (dir, target, rest)) :
    (d.trail ending place names).detour? = some (dir, target, rest) := by
  induction names generalizing place with
  | nil => cases hDetour
  | cons name more ih =>
    rw [trail] at hDetour ⊢
    by_cases hQuiet : name = Route.here ∨ name = Route.slash
    · rw [if_pos hQuiet] at hDetour ⊢
      exact ih hDetour
    rw [if_neg hQuiet] at hDetour ⊢
    by_cases hUp : name = Route.up
    · rw [if_pos hUp] at hDetour ⊢
      exact ih hDetour
    rw [if_neg hUp] at hDetour ⊢
    by_cases hLast : ending = .creation ∧ more = [Route.slash]
    · rwa [if_pos hLast] at hDetour ⊢
    rw [if_neg hLast] at hDetour ⊢
    by_cases hLong : maxName < name.size
    · rwa [if_pos hLong] at hDetour ⊢
    rw [if_neg hLong] at hDetour ⊢
    dsimp only at hDetour ⊢
    rw [get?_erase h hPlace] at hDetour
    by_cases hGone : place ++ [name] = gone
    · -- nothing is there, so the trail would have ended
      rw [if_pos hGone] at hDetour
      dsimp only at hDetour
      split at hDetour <;> cases hDetour
    rw [if_neg hGone] at hDetour
    cases hNext : d.get? (place ++ [name]) with
    | none => rwa [hNext] at hDetour
    | some e =>
      rw [hNext] at hDetour
      cases e with
      | dir => exact ih hDetour
      | link target | file contents | socket | device => exact hDetour

/-- **Without an entry** names are looked up in no more directories. -/
theorem searched_of_erase (h : d.WellFormed) (hPlace : gone ≠ [])
    (hLeaf : d.get? gone ≠ some .dir) {q : Place}
    (hMem : q ∈ (d.erase gone).searched ending links place names) :
    q ∈ d.searched ending links place names := by
  induction links generalizing place names with
  | zero =>
    rw [searched, lookedIn_congr (dir_erase_iff h hPlace hLeaf)] at hMem
    exact hMem
  | succ links ih =>
    rw [searched, lookedIn_congr (dir_erase_iff h hPlace hLeaf)] at hMem
    rw [searched]
    rcases List.mem_append.mp hMem with hFirst | hMore
    · exact List.mem_append_left _ hFirst
    · refine List.mem_append_right _ ?_
      cases hDetour : ((d.erase gone).trail ending place names).detour? with
      | none =>
        rw [hDetour] at hMore
        cases hMore
      | some found =>
        obtain ⟨dir, target, rest⟩ := found
        rw [hDetour] at hMore
        rw [detour?_of_erase h hPlace hDetour]
        exact ih hMore

end Erase

/-! ## Free names -/

/-- Where nothing is found at the end, asking for what a link leads to makes no difference. -/
theorem detour?_target (hFree : ∀ q, d.trail .entry place names ≠ .arrived q) :
    (d.trail .target place names).detour? = (d.trail .entry place names).detour? := by
  induction names generalizing place with
  | nil => rfl
  | cons name more ih =>
    rw [trail, if_neg (show ¬ (Ending.entry = .creation ∧ _) by simp)] at hFree
    rw [trail, trail, if_neg (show ¬ (Ending.target = .creation ∧ _) by simp),
      if_neg (show ¬ (Ending.entry = .creation ∧ _) by simp)]
    by_cases hQuiet : name = Route.here ∨ name = Route.slash
    · rw [if_pos hQuiet] at hFree ⊢
      rw [if_pos hQuiet]
      exact ih hFree
    rw [if_neg hQuiet] at hFree ⊢
    rw [if_neg hQuiet]
    by_cases hUp : name = Route.up
    · rw [if_pos hUp] at hFree ⊢
      rw [if_pos hUp]
      exact ih hFree
    rw [if_neg hUp] at hFree ⊢
    rw [if_neg hUp]
    by_cases hLong : maxName < name.size
    · rw [if_pos hLong, if_pos hLong]
    rw [if_neg hLong] at hFree ⊢
    rw [if_neg hLong]
    dsimp only at hFree ⊢
    cases hNext : d.get? (place ++ [name]) with
    | none => rfl
    | some e =>
      rw [hNext] at hFree
      cases e with
      | dir => exact ih hFree
      | file contents | socket | device => rfl
      | link target =>
        -- at the end the link itself would be found
        by_cases hMore : more = []
        · exact absurd (by simp [hMore]) (hFree (place ++ [name]))
        · simp [hMore]

theorem not_arrived_of_follow {found : Place} {last : Name}
    (h : d.follow .entry links place names = .ok (.vacant found last)) (q : Place) :
    d.trail .entry place names ≠ .arrived q := by
  intro hTrail
  rw [follow_eq_entry.mpr (Or.inl hTrail)] at h
  cases h

theorem searched_target {found : Place} {last : Name}
    (h : d.follow .entry links place names = .ok (.vacant found last)) :
    d.searched .target links place names = d.searched .entry links place names := by
  induction links generalizing place names with
  | zero => rfl
  | succ links ih =>
    rw [searched, searched, detour?_target (not_arrived_of_follow h)]
    cases hDetour : (d.trail .entry place names).detour? with
    | none => rfl
    | some detour =>
      obtain ⟨dir, target, rest⟩ := detour
      rw [follow.eq_def] at h
      dsimp only at h
      rw [Trail.detour?_eq_some.mp hDetour] at h
      dsimp only at h ⊢
      rw [ih h]

/-- **The path of a free name** leads through the same directories, whatever is asked for. -/
theorem searchedFor_target {found : Place} {last : Name}
    (h : d.locate .entry path = .ok (.vacant found last)) :
    d.searchedFor .target path = d.searchedFor .entry path := by
  unfold locate at h
  unfold searchedFor
  split
  · rfl
  · next hTaken =>
    simp only [not_or] at hTaken
    rw [if_neg hTaken.1, if_neg hTaken.2.1, if_neg hTaken.2.2] at h
    exact searched_target h

theorem searchedFor_of_erase {gone : Place} (h : d.WellFormed) (hPlace : gone ≠ [])
    (hLeaf : d.get? gone ≠ some .dir) {q : Place}
    (hMem : q ∈ (d.erase gone).searchedFor ending path) : q ∈ d.searchedFor ending path := by
  unfold searchedFor at hMem ⊢
  split
  · next hRefused =>
    rw [if_pos hRefused] at hMem
    cases hMem
  · next hTaken =>
    rw [if_neg hTaken] at hMem
    exact searched_of_erase h hPlace hLeaf hMem

/-! ## Quiet names -/

/-- Names lead to a directory of a kind, or to a link. -/
def LeadsOn (d : Disk) (P : Place → Prop) (place : Place) (names : List Name) : Prop :=
  (∃ dir, d.stride place names = .arrived dir ∧ P dir) ∨
    ∃ dir target rest, d.stride place names = .detour dir target rest

variable {P : Place → Prop}

/-- The first directory is looked at, or it is the last one. -/
theorem LeadsOn.here (h : d.LeadsOn P place names)
    (hAll : ∀ q ∈ d.lookedIn place (names.filter fun name => !name.isQuiet), P q) : P place := by
  induction names with
  | nil =>
    rcases h with ⟨dir, hStride, hDir⟩ | ⟨dir, target, rest, hStride⟩
    · cases hStride
      exact hDir
    · cases hStride
  | cons name rest ih =>
    by_cases hQuiet : name = Route.here ∨ name = Route.slash
    · rw [List.filter_cons_of_neg (by simp [Name.isQuiet, hQuiet])] at hAll
      unfold LeadsOn at h
      rw [stride, if_pos hQuiet] at h
      exact ih h hAll
    · rw [List.filter_cons_of_pos (by simp [Name.isQuiet, hQuiet])] at hAll
      obtain ⟨hHere, hSlash⟩ := not_or.mp hQuiet
      refine hAll place ?_
      rw [lookedIn, if_neg hSlash, if_neg hHere]
      split
      · exact List.mem_cons_self
      · split <;> exact List.mem_cons_self

/-- A quiet name is looked up where the next name is, or in the last directory. -/
theorem LeadsOn.lookedIn (h : d.LeadsOn P place names) :
    (∀ q ∈ d.lookedIn place names, P q) ↔
      ∀ q ∈ d.lookedIn place (names.filter fun name => !name.isQuiet), P q := by
  induction names generalizing place with
  | nil => exact Iff.rfl
  | cons name rest ih =>
    by_cases hQuiet : name = Route.here ∨ name = Route.slash
    · have hRest : d.LeadsOn P place rest := by
        unfold LeadsOn at h
        rwa [stride, if_pos hQuiet] at h
      rw [List.filter_cons_of_neg (by simp [Name.isQuiet, hQuiet]), ← ih hRest, Disk.lookedIn]
      by_cases hSlash : name = Route.slash
      · rw [if_pos hSlash]
      · rw [if_neg hSlash, if_pos (hQuiet.resolve_right hSlash), List.forall_mem_cons]
        exact and_iff_right_of_imp fun hAll => hRest.here ((ih hRest).mp hAll)
    · obtain ⟨hHere, hSlash⟩ := not_or.mp hQuiet
      rw [List.filter_cons_of_pos (by simp [Name.isQuiet, hQuiet]), Disk.lookedIn, Disk.lookedIn,
        if_neg hSlash, if_neg hSlash, if_neg hHere, if_neg hHere]
      unfold LeadsOn at h
      rw [stride, if_neg hQuiet] at h
      by_cases hUp : name = Route.up
      · rw [if_pos hUp, if_pos hUp, List.forall_mem_cons, List.forall_mem_cons]
        rw [if_pos hUp] at h
        rw [ih h]
      rw [if_neg hUp, if_neg hUp]
      rw [if_neg hUp] at h
      by_cases hDir : d.get? (place ++ [name]) = some .dir
      · rw [if_pos hDir, if_pos hDir, List.forall_mem_cons, List.forall_mem_cons]
        rw [hDir] at h
        split at h
        · rcases h with ⟨dir, hStride, -⟩ | ⟨dir, target, rest, hStride⟩ <;> cases hStride
        · rw [ih h]
      · rw [if_neg hDir, if_neg hDir]

/-- The names of a path to a directory stop at the same links, wherever the path may end. -/
theorem detour?_eq_some {target : ByteString} {rest : List Name} :
    (d.trail .target place names).detour? = some (dir, target, rest) ↔
      d.stride place names = .detour dir target rest :=
  Trail.detour?_eq_some.trans ((@stride_iff d place dir names).2 dir target rest).symm

theorem detour?_eq_none (h : ∀ q target rest, d.stride place names ≠ .detour q target rest) :
    (d.trail .target place names).detour? = none := by
  cases hDetour : (d.trail .target place names).detour? with
  | none => rfl
  | some found => exact absurd (detour?_eq_some.mp hDetour) (h _ _ _)

/-- **Quiet names** of a path to a directory make no difference but for that directory. -/
theorem searched_loud (hEnter : ∃ left, d.enter links place names = .ok (left, dir))
    (hDir : P dir) :
    (∀ q ∈ d.searched .target links place names, P q) ↔
      ∀ q ∈ d.searched .target links place (names.filter fun name => !name.isQuiet), P q := by
  induction links generalizing place names with
  | zero =>
    rcases enter_eq_ok.mp hEnter with hStride | ⟨fewer, hLinks, -⟩
    · exact LeadsOn.lookedIn (Or.inl ⟨dir, hStride, hDir⟩)
    · cases hLinks
  | succ links ih =>
    have hLoud := @stride_loud d place names
    rcases enter_eq_ok.mp hEnter with hStride | ⟨fewer, hLinks, q, target, rest, hStride, hMore⟩
    · rw [hStride] at hLoud
      have hNone : (d.trail .target place names).detour? = none :=
        detour?_eq_none fun q target rest hDetour => by cases hStride.symm.trans hDetour
      have hNone' :
          (d.trail .target place (names.filter fun name => !name.isQuiet)).detour? = none :=
        detour?_eq_none fun q target rest hDetour => by cases hLoud.symm.trans hDetour
      rw [searched, searched, hNone, hNone', List.append_nil, List.append_nil]
      exact LeadsOn.lookedIn (Or.inl ⟨dir, hStride, hDir⟩)
    · cases hLinks
      rw [hStride] at hLoud
      rw [searched, searched, detour?_eq_some.mpr hStride, detour?_eq_some.mpr hLoud,
        List.forall_mem_append, List.forall_mem_append]
      refine and_congr (LeadsOn.lookedIn (Or.inr ⟨q, target, rest, hStride⟩)) ?_
      -- the names of the target are there in both, with their quiet ones
      have hMore' := hMore
      rw [← enter_loud, List.filter_append] at hMore'
      dsimp only
      rw [ih hMore, @ih _ ((Route.ofByteString target).names ++ _) (by
        rw [← enter_loud, List.filter_append, List.filter_filter]
        simpa only [Bool.and_self] using hMore'),
        List.filter_append, List.filter_append, List.filter_filter]
      simp only [Bool.and_self]

end Disk

/-! ## Volumes -/

namespace Volume

variable {v w : Volume} {ending : Ending} {path : ByteString} {α : Type} {access : Except Fault α}
  {result : α}

/-- **A path may be followed** if it could be before, as long as nothing changes about directories
and links. -/
theorem admits_eq (hSound : v.disk.Sound) (hWays : v.disk.SameWays w.disk)
    (hDirs : ∀ q, v.disk.get? q = some .dir → w.inode q = v.inode q) :
    w.admits ending path = v.admits ending path := by
  unfold admits
  rw [hWays.searchedFor, Bool.eq_iff_iff, List.all_eq_true, List.all_eq_true]
  refine forall₂_congr fun q hq => ?_
  rw [hDirs q (hSound.searchedFor_dir q hq)]

theorem guard_eq_ok : v.guard ending path access = .ok result ↔
    v.admits ending path = true ∧ access = .ok result := by
  unfold guard
  split
  · next hAdmits => simp [hAdmits]
  · next hBarred => simp [hBarred]

end Volume

end TreeWatch
