import TreeWatch.Proofs.Bumps

/-!
# The footprint of a bump

A bump writes two entries of the directory that its root leads to, and neither of them was a
directory before. So all paths to directories lead where they led, and another directory is as it
was, down to the order of its listing. The bump of a root that leads to no directory changes
nothing.

Main results:
  * `Disk.Rewritten`: what may have happened to a disk
  * `ReplaceStep.rewritten`, `Reaches.rewritten`: what a step does is within that, and what a run
    does
  * `bump_rewritten`, `bump_of_stray`: bumps of roots that lead to a directory, and of others
-/

namespace TreeWatch

namespace Disk

variable {d d' e e' : Disk} {dir other : Place} {name sibling : Name} {entry : Entry}
  {contents draft : ByteString}

/-! ## Listings -/

/-- How an entry of the disk shows in the listing of a directory. -/
def child? (dir : Place) (e : Place × Entry) : Option (Name × Entry) :=
  match e.1.drop dir.length with
  | [name] => if dir <+: e.1 then some (name, e.2) else none
  | _ => none

theorem children_eq (d : Disk) (dir : Place) : d.children dir = d.entries.filterMap (child? dir) :=
  rfl

/-- An entry of one directory does not show in the listing of another. -/
theorem child?_eq_none (h : other ≠ dir) : child? other (dir ++ [name], entry) = none := by
  unfold child?
  split
  · next found hDrop =>
    rw [if_neg]
    rintro ⟨names, hEq⟩
    rw [← hEq, List.drop_left] at hDrop
    subst hDrop
    obtain ⟨hSame, -⟩ := List.append_inj' hEq rfl
    exact h hSame
  · rfl

theorem filterMap_insert {β : Type} {f : Place × Entry → Option β} {x : Place × Entry}
    (hNone : f x = none) (entries : List (Place × Entry)) :
    (insert entries x).filterMap f = entries.filterMap f := by
  unfold insert
  rw [List.filterMap_append, List.filterMap_cons_none hNone, ← List.filterMap_append,
    List.takeWhile_append_dropWhile]

theorem filterMap_foldl_insert {β : Type} {f : Place × Entry → Option β}
    {moved : List (Place × Entry)} (hNone : ∀ x ∈ moved, f x = none)
    (entries : List (Place × Entry)) :
    (moved.foldl insert entries).filterMap f = entries.filterMap f := by
  induction moved generalizing entries with
  | nil => rfl
  | cons x rest ih =>
    rw [List.foldl_cons, ih fun y hy => hNone y (List.mem_cons_of_mem _ hy),
      filterMap_insert (hNone x List.mem_cons_self)]

/-- What is filtered out need not have shown. -/
theorem filterMap_filter_of_none {α β : Type} {f : α → Option β} {keep : α → Bool} {xs : List α}
    (h : ∀ x ∈ xs, keep x = false → f x = none) :
    (xs.filter keep).filterMap f = xs.filterMap f := by
  rw [List.filterMap_filter]
  refine List.filterMap_congr fun x hx => ?_
  cases hKeep : keep x with
  | true => rfl
  | false => exact (h x hx hKeep).symm

theorem children_erase (h : other ≠ dir) :
    (d.erase (dir ++ [name])).children other = d.children other := by
  refine filterMap_filter_of_none fun x _ hGone => ?_
  obtain ⟨q, entry⟩ := x
  obtain rfl : q = dir ++ [name] := by simpa using hGone
  exact child?_eq_none h

theorem children_set (h : other ≠ dir) :
    (d.set (dir ++ [name]) entry).children other = d.children other :=
  (filterMap_insert (child?_eq_none h) _).trans (children_erase h)

theorem children_renamed_file (hTree : d.WellFormed)
    (hFile : d.get? (dir ++ [sibling]) = some (.file contents)) (h : other ≠ dir) :
    (d.renamed (dir ++ [sibling]) (dir ++ [name])).children other = d.children other := by
  -- nothing stands below a file, so it is the only entry that is moved
  have hOnly {x : Place × Entry} (hMem : x ∈ (d.erase (dir ++ [name])).entries)
      (hBelow : dir ++ [sibling] <+: x.1) : x.1 = dir ++ [sibling] := by
    obtain ⟨names, hEq⟩ := hBelow
    by_cases hNames : names = []
    · rw [← hEq, hNames, List.append_nil]
    have hOld : (x.1, x.2) ∈ d.entries := (List.mem_filter.mp hMem).1
    have hHere := get?_of_mem hTree.distinct (hTree.nonempty x.1 x.2 hOld) hOld
    rw [← hEq, hTree.get?_below hNames fun hDir => by rw [hFile] at hDir; cases hDir] at hHere
    cases hHere
  unfold Disk.renamed moveTree
  dsimp only
  rw [children_eq, filterMap_foldl_insert]
  · rw [eraseTree]
    dsimp only
    rw [filterMap_filter_of_none fun x hMem hGone => ?_]
    · exact children_erase h
    · obtain ⟨q, entry⟩ := x
      obtain rfl : q = dir ++ [sibling] := hOnly hMem (by simpa using hGone)
      exact child?_eq_none h
  · intro x hMoved
    obtain ⟨y, hMem, rfl⟩ := List.mem_map.mp hMoved
    obtain ⟨hOld, hBelow⟩ := List.mem_filter.mp hMem
    rw [hOnly hOld (by simpa using hBelow), List.drop_length, List.append_nil]
    exact child?_eq_none h

/-! ## Rewriting entries of a directory -/

/-- Only entries of one directory have changed. What stood there was no directory, and a file stands
there now, or nothing. -/
structure Rewritten (dir : Place) (d d' : Disk) : Prop where
  sound : d'.Sound
  home : d'.home = d.home
  places : ∀ q, d'.get? q = d.get? q ∨ (∃ name, q = dir ++ [name]) ∧ d.get? q ≠ some .dir ∧
    (d'.get? q = none ∨ ∃ contents, d'.get? q = some (.file contents))
  listing : ∀ other, other ≠ dir → d'.children other = d.children other

namespace Rewritten

theorem refl (h : d.Sound) : d.Rewritten dir d :=
  ⟨h, rfl, fun _ => Or.inl rfl, fun _ _ => rfl⟩

theorem trans (h : d.Rewritten dir e) (h' : e.Rewritten dir e') : d.Rewritten dir e' where
  sound := h'.sound
  home := h'.home.trans h.home
  places q := by
    rcases h'.places q with hLast | ⟨hEntry, hNoDir, hNow⟩
    · rw [hLast]
      exact h.places q
    · refine Or.inr ⟨hEntry, ?_, hNow⟩
      rcases h.places q with hFirst | ⟨-, hFirst, -⟩
      · rwa [← hFirst]
      · exact hFirst
  listing other hOther := (h'.listing other hOther).trans (h.listing other hOther)

theorem set_file (h : d.Sound) (hDir : d.get? dir = some .dir) (hName : Name.Valid name)
    (hFree : d.get? (dir ++ [name]) ≠ some .dir) :
    d.Rewritten dir (d.set (dir ++ [name]) (.file draft)) where
  sound := h.set_file hDir hName hFree
  home := rfl
  places q := by
    rw [get?_set h.toWellFormed (by simp)]
    by_cases hHere : q = dir ++ [name]
    · rw [if_pos hHere]
      exact Or.inr ⟨⟨name, hHere⟩, hHere ▸ hFree, Or.inr ⟨draft, rfl⟩⟩
    · rw [if_neg hHere]
      exact Or.inl rfl
  listing _ hOther := children_set hOther

theorem erase (h : d.Sound) (hLeaf : d.get? (dir ++ [name]) ≠ some .dir) :
    d.Rewritten dir (d.erase (dir ++ [name])) where
  sound := h.erase (by simp) hLeaf
  home := rfl
  places q := by
    rw [get?_erase h.toWellFormed (by simp)]
    by_cases hHere : q = dir ++ [name]
    · rw [if_pos hHere]
      exact Or.inr ⟨⟨name, hHere⟩, hHere ▸ hLeaf, Or.inl rfl⟩
    · rw [if_neg hHere]
      exact Or.inl rfl
  listing _ hOther := children_erase hOther

theorem renamed_file (h : d.Sound) (hDir : d.get? dir = some .dir) (hName : Name.Valid name)
    (hNe : sibling ≠ name) (hFile : d.get? (dir ++ [sibling]) = some (.file contents))
    (hFree : d.get? (dir ++ [name]) ≠ some .dir) :
    d.Rewritten dir (d.renamed (dir ++ [sibling]) (dir ++ [name])) where
  sound := h.renamed_file hDir hName hNe hFile hFree
  home := rfl
  places q := by
    rw [(h.toWellFormed.renamed_file hDir hName hNe hFile hFree).2]
    by_cases hHere : q = dir ++ [name]
    · rw [if_pos hHere]
      exact Or.inr ⟨⟨name, hHere⟩, hHere ▸ hFree, Or.inr ⟨contents, rfl⟩⟩
    by_cases hThere : q = dir ++ [sibling]
    · rw [if_neg hHere, if_pos hThere]
      exact Or.inr ⟨⟨sibling, hThere⟩, by rw [hThere, hFile]; simp, Or.inl rfl⟩
    · rw [if_neg hHere, if_neg hThere]
      exact Or.inl rfl
  listing _ hOther := children_renamed_file h.toWellFormed hFile hOther

/-- What is written is an open file of the directory, or a device that keeps nothing. -/
theorem write (h : d.Sound) (hDir : d.get? dir = some .dir) (hName : Name.Valid name)
    (contents : ByteString) : d.Rewritten dir (d.write (dir ++ [name]) contents) := by
  unfold Disk.write
  split
  · next draft hFile => exact set_file h hDir hName (by simp [hFile])
  · exact refl h

/-- Directories stay. -/
theorem get?_dir (h : d.Rewritten dir d') {q : Place} (hDir : d.get? q = some .dir) :
    d'.get? q = some .dir := by
  rcases h.places q with hSame | ⟨-, hNoDir, -⟩
  · rwa [hSame]
  · exact absurd hDir hNoDir

/-- If no link is rewritten, all paths lead where they led. -/
theorem sameWays (h : d.Rewritten dir d')
    (hLinks : ∀ q target, d.get? q = some (.link target) → d'.get? q = d.get? q) :
    d.SameWays d' where
  home := h.home
  ways q := by
    rcases h.places q with hSame | ⟨-, hNoDir, hNow⟩
    · exact Or.inl hSame
    by_cases hLink : ∃ target, d.get? q = some (.link target)
    · obtain ⟨target, hLink⟩ := hLink
      exact Or.inl (hLinks q target hLink)
    · refine Or.inr ⟨⟨hNoDir, fun target hHere => hLink ⟨target, hHere⟩⟩, ?_⟩
      rcases hNow with hNone | ⟨contents, hFile⟩
      · exact ⟨by simp [hNone], by simp [hNone]⟩
      · exact ⟨by simp [hFile], by simp [hFile]⟩

/-- So they do if there is no link in the directory. -/
theorem sameWays_of_noLink (h : d.Rewritten dir d')
    (hNoLink : ∀ name target, d.get? (dir ++ [name]) ≠ some (.link target)) : d.SameWays d' := by
  refine h.sameWays fun q target hLink => ?_
  rcases h.places q with hSame | ⟨⟨name, rfl⟩, -, -⟩
  · exact hSame
  · exact absurd hLink (hNoLink name target)

end Rewritten

end Disk

/-! ## What the steps of a replacement do -/

section Steps

variable {h : Hazard} {temporary path root : Path} {s t contents : String} {d e e' : Disk}
  {dir place : Place} {stage stage' : Replacing}

/-- The place of an entry, where the directory is known. -/
theorem Path.EntryOf.place_eq (hEntry : path.EntryOf root s) (hEnters : d.Enters root dir)
    (hNames : d.Names path place) : place = dir ++ [.text s] := by
  obtain ⟨-, found, hFound, rfl⟩ := hEntry.names.mp hNames
  rw [hFound.unique hEnters]

/-- **What one step does** stays within the directory of the root. -/
theorem ReplaceStep.rewritten (hSound : d.Sound) (hSibling : temporary.EntryOf root t)
    (hFile : path.EntryOf root s) (hNe : t ≠ s) (hEnters : d.Enters root dir)
    (hOwn : ∀ d' place, h.guard .create (d.create temporary.native) = .ok (d', place) →
      d.Names temporary place)
    (hReached : stage.Reached h temporary path contents d e) (hBefore : d.Rewritten dir e)
    (hStep : ReplaceStep h temporary path contents (e, stage) (e', stage')) :
    d.Rewritten dir e' := by
  have hDir : e.get? dir = some .dir := hBefore.get?_dir (hSound.enters_dir hEnters)
  -- the sibling is written at the place that its path names
  have hWrite {place : Place} (hDraft : Drafted temporary d e place) (part : ByteString) :
      d.Rewritten dir (e.write place part) := by
    rw [hSibling.place_eq hEnters hDraft.names]
    exact hBefore.trans (.write hDraft.sound hDir hSibling.valid part)
  cases hStep with
  | created hCreate =>
    obtain rfl : e = d := hReached
    obtain rfl := hSibling.place_eq hEnters (hOwn _ _ hCreate)
    obtain ⟨-, hBlocked, rfl | ⟨rfl, -⟩⟩ :=
      Disk.created_of_create (Hazard.action_of_guard hCreate)
    · exact .set_file hSound hDir hSibling.valid hBlocked.noDir
    · exact hBefore
  | wrote hMore hRoom => exact hWrite hReached _
  | unwritten hFails => exact hWrite hReached _
  | completed hFails => exact hWrite hReached _
  | uncreated hCreate => exact hBefore
  | synced hSync => exact hBefore
  | unsynced hSync => exact hBefore
  | unrenamed hRename => exact hBefore
  | unremoved hRemove => exact hBefore
  | renamed hRename =>
    obtain ⟨place, hDraft, hContents⟩ := hReached
    obtain ⟨found, hFound, rfl, -, hFree, rfl⟩ :=
      hDraft.renamed hSibling hFile hNe hContents (Hazard.action_of_guard hRename)
    obtain rfl := hFound.unique hEnters
    have hApart : (.text t : Name) ≠ .text s := fun hSame => hNe (ByteString.text.inj hSame)
    exact hBefore.trans (.renamed_file hDraft.sound hDir hFile.valid hApart hContents hFree)
  | removed hRemove =>
    have hLeft : Abandoned temporary d e := hReached
    obtain ⟨place, hNames, -, hNoDir, rfl⟩ :=
      Disk.erased_of_remove (Hazard.action_of_guard hRemove)
    obtain rfl := hSibling.place_eq hEnters ((hLeft.names place).mp hNames)
    exact hBefore.trans (.erase hLeft.sound hNoDir)

/-- **What a run does**, however far it gets. -/
theorem Reaches.rewritten (hSound : d.Sound) (hSibling : temporary.EntryOf root t)
    (hFile : path.EntryOf root s) (hNe : t ≠ s) (hEnters : d.Enters root dir)
    (hOwn : ∀ d' place, h.guard .create (d.create temporary.native) = .ok (d', place) →
      d.Names temporary place)
    (run : Reaches h temporary path contents (d, .begun) (e, stage)) : d.Rewritten dir e := by
  generalize hLast : (e, stage) = last at run
  induction run generalizing e stage with
  | refl =>
    cases hLast
    exact .refl hSound
  | @tail middle last hRun hStep ih =>
    obtain ⟨between, stage'⟩ := middle
    subst hLast
    have hReached := Reaches.reached hSound hSibling hFile hNe hOwn hRun
    exact hStep.rewritten hSound hSibling hFile hNe hEnters hOwn hReached (ih rfl)

end Steps

/-! ## Bumps -/

variable {h : Hazard} {d : Disk} {root : Path} {dir : Place}

/-- No link stands in a directory under the name of a sibling. -/
def Disk.Unbaited (d : Disk) (dir : Place) : Prop :=
  ∀ name, isCounterName name = true →
    ∀ target, d.get? (dir ++ [.text (name ++ temporarySuffix)]) ≠ some (.link target)

/-- Without such a link the sibling is opened itself. -/
theorem own_sibling (hEnters : d.Enters root dir) (hBait : d.Unbaited dir) (d' : Disk)
    (place : Place)
    (hCreate : h.guard .create (d.create (siblingPath d root).native) = .ok (d', place)) :
    d.Names (siblingPath d root) place := by
  obtain ⟨name, hName, hPath⟩ := exists_counterName d root
  obtain ⟨-, hSibling⟩ := entries_of_counterPath hName hPath
  refine hSibling.opens_entry (fun found hFound => ?_) (Hazard.action_of_guard hCreate)
  obtain rfl := hFound.unique hEnters
  exact hBait name hName

/-- What holds of the disk when a bump of such a root is over. -/
theorem bump_reached (h : Hazard) (hSound : d.Sound) (hEnters : d.Enters root dir)
    (hBait : d.Unbaited dir) :
    ∃ result left, Replacing.Reached h (siblingPath d root) (counterPath d root)
        (bumpedText d root) d (bump h d root).disk (.over result left) ∧
      (bump h d root).result =
        (result.mapError (.access (counterPath d root))).map fun () => bumpedVersion d root := by
  obtain ⟨name, hFile, hSibling⟩ := entries_of_bump d root
  obtain ⟨result, left, run, hResult⟩ := bump_reaches h d root
  exact ⟨result, left, Reaches.reached hSound hSibling hFile (temporaryName_ne name)
    (own_sibling hEnters hBait) run, hResult⟩

/-- **The footprint of a bump**: entries of the directory that the root leads to. -/
theorem bump_rewritten (h : Hazard) (hSound : d.Sound) (hEnters : d.Enters root dir)
    (hBait : d.Unbaited dir) : d.Rewritten dir (bump h d root).disk := by
  obtain ⟨name, hFile, hSibling⟩ := entries_of_bump d root
  obtain ⟨result, left, run, -⟩ := bump_reaches h d root
  exact Reaches.rewritten hSound hSibling hFile (temporaryName_ne name) hEnters
    (own_sibling hEnters hBait) run

/-- Nothing besides the counter and its sibling is changed. -/
theorem bump_kept (h : Hazard) (hSound : d.Sound) (hEnters : d.Enters root dir)
    (hBait : d.Unbaited dir) {name : String} (hName : isCounterName name = true)
    (hPath : counterPath d root = root.join ⟨name⟩) {q : Place} (hFile : q ≠ dir ++ [.text name])
    (hSibling : q ≠ dir ++ [.text (name ++ temporarySuffix)]) :
    (bump h d root).disk.get? q = d.get? q := by
  obtain ⟨hCounter, hTemporary⟩ := entries_of_counterPath hName hPath
  obtain ⟨result, left, hReached, -⟩ := bump_reached h hSound hEnters hBait
  refine (hReached.old_or_new hTemporary hCounter (temporaryName_ne name)).2 q ?_ ?_
  · exact fun hNames => hFile (hCounter.place_eq hEnters hNames)
  · exact fun hNames => hSibling (hTemporary.place_eq hEnters hNames)

/-- A step that is refused fails, if not by itself. -/
theorem Hazard.exists_fault {α : Type} (h : Hazard) (step : Primitive) {action : Except Fault α}
    (hRefused : ∀ result, action ≠ .ok result) : ∃ fault, h.guard step action = .error fault := by
  cases hGuard : h.guard step action with
  | error fault => exact ⟨fault, rfl⟩
  | ok result => exact absurd (Hazard.action_of_guard hGuard) (hRefused result)

/-- A sibling that can neither be created nor removed leaves everything as it was. -/
theorem bump_of_refused {σ : Type} [FileSystem σ] {d : σ}
    (hCreate : ∀ created, FileSystem.create d (siblingPath d root).native ≠ .ok created)
    (hRemove : ∀ e, FileSystem.remove d (siblingPath d root).native ≠ .ok e) :
    (bump h d root).disk = d ∧ ∃ e, (bump h d root).result = .error e := by
  obtain ⟨fault, hCreate⟩ := h.exists_fault .create hCreate
  obtain ⟨left, hRemove⟩ := h.exists_fault .remove hRemove
  have hEnd : bumpReplaced h d root =
      ⟨d, .error fault, if left = .notFound then none else some left⟩ := by
    unfold bumpReplaced
    rw [replaceFile_eq, hCreate]
    show abandonReplace h d (siblingPath d root) fault = _
    rw [abandonReplace, hRemove]
  obtain ⟨hDisk, hResult⟩ := bump_eq h d root
  rw [hDisk, hResult, hEnd]
  exact ⟨rfl, _, rfl⟩

/-- What would lie in a root that leads to no directory can neither be opened nor removed. -/
theorem Path.EntryOf.refused {path : Path} {s : String} (hEntry : path.EntryOf root s)
    (hStray : ∀ dir, ¬ d.Enters root dir) :
    (∀ created, d.create path.native ≠ .ok created) ∧ ∀ e, d.remove path.native ≠ .ok e := by
  have hNowhere {ending : Ending} {spot : Spot} : d.locate ending path.native ≠ .ok spot := by
    intro hLocate
    obtain ⟨-, dir, hEnters⟩ := hEntry.enters hLocate
    exact hStray dir hEnters
  refine ⟨fun (created, place) hOk => ?_, fun e hOk => ?_⟩
  · obtain ⟨⟨spot, hLocate, -⟩, -⟩ := Disk.created_of_create hOk
    exact hNowhere hLocate
  · obtain ⟨place, ⟨spot, hLocate, -⟩, -⟩ := Disk.erased_of_remove hOk
    exact hNowhere hLocate

/-- **A root that leads to no directory** cannot be bumped, and nothing is changed. -/
theorem bump_of_stray (h : Hazard) (hStray : ∀ dir, ¬ d.Enters root dir) :
    (bump h d root).disk = d ∧ ∃ e, (bump h d root).result = .error e := by
  obtain ⟨name, -, hSibling⟩ := entries_of_bump d root
  obtain ⟨hCreate, hRemove⟩ := hSibling.refused hStray
  exact bump_of_refused hCreate hRemove

/-- A root leads to a directory, or a bump of it comes to nothing. -/
theorem enters_or_stray (h : Hazard) (d : Disk) (root : Path) :
    (∃ dir, d.Enters root dir) ∨ (∀ dir, ¬ d.Enters root dir) ∧
      (bump h d root).disk = d ∧ ∃ e, (bump h d root).result = .error e := by
  by_cases hLeads : ∃ dir, d.Enters root dir
  · exact Or.inl hLeads
  · have hStray := not_exists.mp hLeads
    exact Or.inr ⟨hStray, bump_of_stray h hStray⟩

end TreeWatch
