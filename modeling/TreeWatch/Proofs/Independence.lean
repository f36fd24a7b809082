import TreeWatch.Coalescer.Basic
import TreeWatch.Proofs.Likeness

/-!
# Roots are bumped independently

A bump changes entries of the directory of its root only, so it keeps a volume alike in any other
directory. Where there are no links, and no sibling has another name, bumping several roots one
after another therefore comes to the same as bumping each of them alone, in whatever order. It makes
no difference what goes wrong with any of them, or what the process may not read or look through.

Main results:
  * `Volume.bump_rewritten`, `Volume.bump_of_stray`: bumps of roots that lead to a directory, and of
    others
  * `Volume.bumpAll_alone`: bumping roots that lead to different directories
  * `roots_flush_independently`: the same for a flush
  * `flushed_roots_interfere`: roots that do make a difference to others
-/

namespace TreeWatch

/-! ## Roots -/

namespace Disk

variable {d d' : Disk} {p q : Path} {dir : Place}

/-- There are no links. -/
def Linkless (d : Disk) : Prop :=
  ∀ q target, d.get? q ≠ some (.link target)

/-- Two paths do not lead to the same directory. -/
def Apart (d : Disk) (p q : Path) : Prop :=
  ∀ dir, d.Enters p dir → ¬ d.Enters q dir

/-- The directory that a path leads to. -/
def entered? (d : Disk) (p : Path) : Option Place :=
  (d.enter maxLinks (d.start p) p.steps).toOption.map Prod.snd

theorem entered?_eq_some : d.entered? p = some dir ↔ d.Enters p dir := by
  unfold entered? Enters
  cases d.enter maxLinks (d.start p) p.steps with
  | error fault => simp [Except.toOption]
  | ok found =>
    obtain ⟨left, other⟩ := found
    simp [Except.toOption]

instance (d : Disk) (p q : Path) : Decidable (d.Apart p q) :=
  decidable_of_iff (∀ dir ∈ d.entered? p, d.entered? q ≠ some dir) <| by
    unfold Apart
    simp only [Option.mem_def, ne_eq, entered?_eq_some]

theorem Rewritten.linkless (h : d.Rewritten dir d') (hLinkless : d.Linkless) : d'.Linkless := by
  intro q target
  rcases h.places q with hSame | ⟨-, -, hNone | ⟨contents, hFile⟩⟩
  · rw [hSame]
    exact hLinkless q target
  · simp [hNone]
  · simp [hFile]

theorem SameWays.enters_iff (h : d.SameWays d') : d'.Enters p dir ↔ d.Enters p dir :=
  ⟨fun hEnters => hEnters.of_sameWays h.symm, fun hEnters => hEnters.of_sameWays h⟩

theorem SameWays.apart_iff (h : d.SameWays d') : d'.Apart p q ↔ d.Apart p q := by
  unfold Apart
  simp only [h.enters_iff]

theorem Apart.symm (h : d.Apart p q) : d.Apart q p :=
  fun dir hq hp => h dir hp hq

/-- What is rewritten in one directory is alike in another. -/
theorem Rewritten.alike {other : Place} (h : d.Rewritten other d') (hSound : d.Sound)
    (hLinkless : d.Linkless) (hNe : dir ≠ other) : d.Alike dir d' where
  sound := hSound
  sound' := h.sound
  ways := h.sameWays_of_noLink fun _ target => hLinkless _ target
  entries name := by
    rcases h.places (dir ++ [name]) with hSame | ⟨⟨found, hEntry⟩, -, -⟩
    · exact hSame
    · obtain ⟨hDir, -⟩ := List.append_inj' hEntry rfl
      exact absurd hDir hNe
  noLink _ target := hLinkless _ target

end Disk

/-! ## Bumps one after another -/

namespace Volume

variable {h : Hazards} {v w : Volume} {root other : Path} {roots : List Path} {dir found : Place}

/-- Only entries of one directory have changed, and no directory. -/
structure Rewritten (dir : Place) (v w : Volume) : Prop where
  disk : v.disk.Rewritten dir w.disk
  readsOwn : w.readsOwn = v.readsOwn
  places : ∀ q, (∀ name, q ≠ dir ++ [name]) ∨ v.disk.get? q = some .dir → w.get? q = v.get? q

/-- **The footprint of a bump**: entries of the directory that the root leads to. -/
theorem bump_rewritten (h : Hazard) (hSound : v.disk.Sound) (hEnters : v.disk.Enters root dir)
    (hOwn : v.OwnSibling root) : v.Rewritten dir (bump h v root).disk := by
  obtain ⟨name, hFile, hSibling⟩ := entries_of_bump v root
  obtain ⟨result, left, run, -⟩ := bump_ended h hSound hOwn
  have hKept := bump_kept h hSound hOwn
  refine ⟨Reaches.rewritten hSound hSibling hFile (temporaryName_ne name) hEnters
    (fun d place => hOwn.names) run, hKept.readsOwn, fun q hAway => hKept.places q fun hNames => ?_⟩
  refine hAway.resolve_left fun hElse => ?_
  rcases hNames with hTemporary | hCounter
  · exact hElse _ (hSibling.place_eq hEnters hTemporary)
  · exact hElse _ (hFile.place_eq hEnters hCounter)

/-- **A root that leads to no directory** cannot be bumped, and nothing is changed. -/
theorem bump_of_stray (h : Hazard) (hStray : ∀ dir, ¬ v.disk.Enters root dir) :
    (bump h v root).disk = v ∧ ∃ e, (bump h v root).result = .error e := by
  obtain ⟨name, -, hSibling⟩ := entries_of_bump v root
  obtain ⟨hCreate, hRemove⟩ := hSibling.refused hStray
  refine bump_of_refused (fun (w, place) hOk => ?_) fun w hOk => ?_
  · obtain ⟨⟨d, hDisk⟩, -⟩ := create_eq_ok hOk
    exact hCreate _ hDisk
  · obtain ⟨e, -, -, hRemoved⟩ := (v.remove_agree (siblingPath v root).native).exists_ok hOk
    exact hRemove _ hRemoved.disk

/-- A root leads to a directory, or a bump of it comes to nothing. -/
theorem enters_or_stray (h : Hazard) (v : Volume) (root : Path) :
    (∃ dir, v.disk.Enters root dir) ∨ (∀ dir, ¬ v.disk.Enters root dir) ∧
      (bump h v root).disk = v ∧ ∃ e, (bump h v root).result = .error e := by
  by_cases hLeads : ∃ dir, v.disk.Enters root dir
  · exact Or.inl hLeads
  · have hStray := not_exists.mp hLeads
    exact Or.inr ⟨hStray, bump_of_stray h hStray⟩

/-- What is rewritten in one directory is alike in another. -/
theorem Rewritten.alike (hRewritten : v.Rewritten found w) (hSound : v.disk.Sound)
    (hLinkless : v.disk.Linkless) (hNe : dir ≠ found) : v.Alike dir w where
  disk := hRewritten.disk.alike hSound hLinkless hNe
  readsOwn := hRewritten.readsOwn
  dirs q hDir := inode_of_get? (hRewritten.places q (Or.inr hDir)) (by simp [hDir])
  entries name := by
    refine hRewritten.places _ (Or.inl fun other hSame => hNe ?_)
    exact (List.append_inj' hSame rfl).1

/-- On volumes that are alike the sibling of a root has no other name, or has one on both. -/
theorem Alike.ownSibling (hAlike : v.Alike dir w)
    (hListing : w.disk.children dir = v.disk.children dir) (hEnters : v.disk.Enters root dir)
    (hLinkless : w.disk.Linkless) (hOwn : v.OwnSibling root) : w.OwnSibling root := by
  obtain ⟨name, -, hSibling⟩ := entries_of_bump w root
  have hSame : siblingPath w root = siblingPath v root := by
    unfold siblingPath
    rw [hAlike.counterPath_eq hListing hEnters]
  intro y place hCreate
  obtain ⟨⟨d, hDisk⟩, -⟩ := create_eq_ok hCreate
  refine ⟨hSibling.opens_entry (fun _ _ target => hLinkless _ target) hDisk, ?_⟩
  rw [hSame] at hSibling hCreate
  exact hAlike.own hSibling hEnters (fun x place hOpen => (hOwn x place hOpen).2) y place hCreate

/-- Where there are no links and no file has two names, nothing else is opened. -/
theorem OwnSibling.of_linkless (hLinkless : v.disk.Linkless)
    (hAlone : ∀ q, (v.inode q).shared = none) : v.OwnSibling root := by
  intro w place hCreate
  obtain ⟨name, -, hSibling⟩ := entries_of_bump v root
  obtain ⟨⟨d, hDisk⟩, -, -, hOld, hNew⟩ := create_eq_ok hCreate
  refine ⟨hSibling.opens_entry (fun _ _ target => hLinkless _ target) hDisk, ?_⟩
  by_cases hHere : v.disk.get? place = none
  · rw [hNew hHere]
  · rw [hOld hHere, hAlone]

/-- What a bump leaves as it is: a tree without links, on which all paths lead where they led. -/
theorem bump_frame (h : Hazard) (hSound : v.disk.Sound) (hLinkless : v.disk.Linkless)
    (hOwn : v.OwnSibling root) :
    (bump h v root).disk.disk.Sound ∧ (bump h v root).disk.disk.Linkless ∧
      v.disk.SameWays (bump h v root).disk.disk := by
  rcases enters_or_stray h v root with ⟨dir, hEnters⟩ | ⟨-, hSame, -⟩
  · have hRewritten := (bump_rewritten h hSound hEnters hOwn).disk
    exact ⟨hRewritten.sound, hRewritten.linkless hLinkless,
      hRewritten.sameWays_of_noLink fun _ target => hLinkless _ target⟩
  · rw [hSame]
    exact ⟨hSound, hLinkless, rfl, fun _ => Or.inl rfl⟩

/-- Nor does it change what is no entry of the directory of its root. -/
theorem bump_outside (h : Hazard) (hSound : v.disk.Sound) (hOwn : v.OwnSibling root) {q : Place}
    (hAway : ∀ dir, v.disk.Enters root dir → ∀ name, q ≠ dir ++ [name]) :
    (bump h v root).disk.get? q = v.get? q := by
  rcases enters_or_stray h v root with ⟨dir, hEnters⟩ | ⟨-, hSame, -⟩
  · exact (bump_rewritten h hSound hEnters hOwn).places q (Or.inl (hAway dir hEnters))
  · rw [hSame]

/-- How a bump among others compares with the same bump alone: it succeeds with the same number or
fails like it. Only a root that leads to no directory may fail for another reason. -/
structure BumpedAlone (h : Hazards) (v : Volume) (root : Path)
    (r : Path × Except WatchError UInt64) : Prop where
  bumped : r.1 = root
  outcome : r.2.toOption = (bump (h root) v root).result.toOption
  fault : (∃ dir, v.disk.Enters root dir) → r.2 = (bump (h root) v root).result

/-- The first bump of all is one alone. -/
theorem BumpedAlone.first {bumped : Bumped Volume} (hBump : bump (h root) v root = bumped) :
    BumpedAlone h v root (root, bumped.result) :=
  ⟨rfl, by rw [hBump], fun _ => by rw [hBump]⟩

/-- **After the bump of another root** a bump goes as it would have gone before, and what it opens
is still its sibling. -/
theorem bump_after (h : Hazards) (hSound : v.disk.Sound) (hLinkless : v.disk.Linkless)
    (hOther : v.OwnSibling other) (hOwn : v.OwnSibling root) (hApart : v.disk.Apart other root) :
    (bump (h other) v other).disk.OwnSibling root ∧
      (bump (h root) (bump (h other) v other).disk root).result.toOption =
        (bump (h root) v root).result.toOption ∧
      ∀ dir, v.disk.Enters root dir →
        (bump (h root) (bump (h other) v other).disk root).result = (bump (h root) v root).result ∧
          ∀ name, (bump (h root) (bump (h other) v other).disk root).disk.get? (dir ++ [name]) =
            (bump (h root) v root).disk.get? (dir ++ [name]) := by
  rcases enters_or_stray (h other) v other with ⟨found, hFound⟩ | ⟨-, hSame, -⟩
  · have hRewritten := bump_rewritten (h other) hSound hFound hOther
    obtain ⟨-, hLinkless', hWays⟩ := bump_frame (h other) hSound hLinkless hOther
    by_cases hLeads : ∃ dir, v.disk.Enters root dir
    · -- a root that leads to a directory finds it as it was
      obtain ⟨dir, hEnters⟩ := hLeads
      have hNe : dir ≠ found := by
        rintro rfl
        exact hApart dir hFound hEnters
      have hAlike := hRewritten.alike hSound hLinkless hNe
      have hListing := hRewritten.disk.listing dir hNe
      obtain ⟨hResult, hAfter⟩ := hAlike.bump (h root) hListing hEnters hOwn
      refine ⟨hAlike.ownSibling hListing hEnters hLinkless' hOwn, by rw [hResult],
        fun into hInto => ?_⟩
      obtain rfl := hInto.unique hEnters
      exact ⟨hResult, hAfter.entries⟩
    · -- and one that leads to none still does not
      have hStray := not_exists.mp hLeads
      have hStray' (dir : Place) : ¬ (bump (h other) v other).disk.disk.Enters root dir :=
        fun hEnters => hStray dir (hWays.enters_iff.mp hEnters)
      obtain ⟨-, e, hAlone⟩ := bump_of_stray (h root) hStray
      obtain ⟨-, e', hAmong⟩ := bump_of_stray (h root) hStray'
      refine ⟨.of_stray hStray', ?_, fun dir hEnters => absurd hEnters (hStray dir)⟩
      rw [hAlone, hAmong]
      rfl
  · rw [hSame]
    exact ⟨hOwn, rfl, fun _ _ => ⟨rfl, fun _ => rfl⟩⟩

/-- Bumps of several roots that came to what the bumps of each of them alone come to. -/
structure EachAlone (h : Hazards) (v : Volume) (roots : List Path) (all : BumpedAll Volume) :
    Prop where
  results : List.Forall₂ (BumpedAlone h v) roots all.results
  home : all.disk.disk.home = v.disk.home
  inside : ∀ root ∈ roots, ∀ dir, v.disk.Enters root dir → ∀ name,
    all.disk.get? (dir ++ [name]) = (bump (h root) v root).disk.get? (dir ++ [name])
  outside : ∀ q, (∀ root ∈ roots, ∀ dir, v.disk.Enters root dir → ∀ name, q ≠ dir ++ [name]) →
    all.disk.get? q = v.get? q

/-- **Bumping several roots** comes to bumping each of them alone. -/
theorem bumpAll_alone (h : Hazards) (roots : List Path) : ∀ v : Volume, v.disk.Sound →
    v.disk.Linkless → roots.Pairwise v.disk.Apart → (∀ root ∈ roots, v.OwnSibling root) →
      EachAlone h v roots (bumpAll h v roots) := by
  -- by induction on the roots, for any volume: the first bump leaves one on which the others are
  -- bumped as they would be before
  induction roots with
  | nil =>
    intro v _ _ _ _
    exact ⟨.nil, rfl, fun _ hRoot => absurd hRoot List.not_mem_nil, fun _ _ => rfl⟩
  | cons root rest ih =>
    intro v hSound hLinkless hApart hOwn
    obtain ⟨hFirst, hRest⟩ := List.pairwise_cons.mp hApart
    obtain ⟨hRoot, hLater⟩ := List.forall_mem_cons.mp hOwn
    obtain ⟨hSound', hLinkless', hWays⟩ := bump_frame (h root) hSound hLinkless hRoot
    have hAfter (later : Path) (hMem : later ∈ rest) :=
      bump_after h hSound hLinkless hRoot (hLater later hMem) (hFirst later hMem)
    have hOthers := ih _ hSound' hLinkless' (hRest.imp hWays.apart_iff.mpr)
      fun later hMem => (hAfter later hMem).1
    obtain ⟨hDisk, hResults⟩ := bumpAll_cons h v root rest
    refine ⟨?_, ?_, ?_, ?_⟩
    · rw [hResults]
      have hKnown := (List.forall₂_and_left _ _).mpr ⟨hAfter, hOthers.results⟩
      refine .cons (.first rfl) (hKnown.imp fun later r ⟨⟨_, hOutcome, hSame⟩, hAlone⟩ => ?_)
      refine ⟨hAlone.bumped, hAlone.outcome.trans hOutcome, fun ⟨dir, hEnters⟩ => ?_⟩
      exact (hAlone.fault ⟨dir, hWays.enters_iff.mpr hEnters⟩).trans (hSame dir hEnters).1
    · rw [hDisk, hOthers.home, hWays.home]
    · intro one hOne dir hEnters name
      rw [hDisk]
      rcases List.mem_cons.mp hOne with rfl | hMem
      · -- the others are bumped elsewhere
        refine hOthers.outside _ fun later hMem found hFound there hSame => ?_
        obtain ⟨rfl, -⟩ := List.append_inj' hSame rfl
        exact hFirst later hMem dir hEnters (hWays.enters_iff.mp hFound)
      · obtain ⟨-, -, hSame⟩ := hAfter one hMem
        rw [hOthers.inside one hMem dir (hWays.enters_iff.mpr hEnters) name,
          (hSame dir hEnters).2]
    · intro q hAway
      rw [hDisk, hOthers.outside q,
        bump_outside (h root) hSound hRoot (hAway root List.mem_cons_self)]
      intro later hMem dir hEnters
      exact hAway later (List.mem_cons_of_mem _ hMem) dir (hWays.enters_iff.mp hEnters)

/-- What the bumps of each alone come to does not depend on the order. -/
theorem EachAlone.get?_eq {all others : BumpedAll Volume} {order : List Path}
    (hAll : EachAlone h v roots all) (hOthers : EachAlone h v order others)
    (hPerm : order.Perm roots) (q : Place) : others.disk.get? q = all.disk.get? q := by
  by_cases hInside : ∃ root ∈ roots, ∃ dir, v.disk.Enters root dir ∧ ∃ name, q = dir ++ [name]
  · obtain ⟨root, hRoot, dir, hEnters, name, rfl⟩ := hInside
    rw [hAll.inside root hRoot dir hEnters name,
      hOthers.inside root (hPerm.mem_iff.mpr hRoot) dir hEnters name]
  · have hAway : ∀ root ∈ roots, ∀ dir, v.disk.Enters root dir → ∀ name, q ≠ dir ++ [name] :=
      fun root hRoot dir hEnters name hHere => hInside ⟨root, hRoot, dir, hEnters, name, hHere⟩
    have hAway' : ∀ root ∈ order, ∀ dir, v.disk.Enters root dir → ∀ name, q ≠ dir ++ [name] :=
      fun root hRoot => hAway root (hPerm.mem_iff.mp hRoot)
    rw [hAll.outside q hAway, hOthers.outside q hAway']

/-- As many bumps succeeded as would alone. -/
theorem countP_bumpedAlone {results : List (Path × Except WatchError UInt64)}
    (hResults : List.Forall₂ (BumpedAlone h v) roots results) :
    results.countP (fun r => r.2.isOk) =
      roots.countP fun root => (bump (h root) v root).result.isOk := by
  induction hResults with
  | nil => rfl
  | @cons root r roots results hFirst hRest ih =>
    have hIsOk (x : Except WatchError UInt64) : x.isOk = x.toOption.isSome := by cases x <;> rfl
    have hSame : r.2.isOk = (bump (h root) v root).result.isOk := by
      rw [hIsOk, hIsOk, hFirst.outcome]
    rw [List.countP_cons, List.countP_cons, ih, hSame]

end Volume

/-! ## Main result -/

/-- A root with another within it, one that cannot be looked through, and one that cannot be
written. -/
def guarded : Volume where
  disk := ⟨[([.text "c"], .dir), ([.text "r"], .dir), ([.text "r", .text "s"], .dir),
    ([.text "r", .text "s", .text "GPT.ini"], .file (.text "[General]\nVersion=4\n")),
    ([.text "w"], .dir)], []⟩
  inode place := if place = [.text "c"] then { searchable := false } else {}

/-- Nothing can be created in one of the roots. -/
def oneReadOnly : Hazards := fun root =>
  if root = ⟨"w"⟩ then ⟨fun step => if step = .create then some (.system 30) else none, 0⟩
  else .none

/-- Two roots, in one of which the counter of the other has the name of the sibling. -/
def entangled : Volume where
  disk := ⟨[([.text "a"], .dir), ([.text "a", .text "gpt.ini.tmp"], counterAtFour.2),
    ([.text "b"], .dir), ([.text "b", .text "gpt.ini"], counterAtFour.2)], []⟩
  inode place :=
    if place = [.text "a", .text "gpt.ini.tmp"] ∨ place = [.text "b", .text "gpt.ini"] then
      { shared := some 1 }
    else {}

end TreeWatch
