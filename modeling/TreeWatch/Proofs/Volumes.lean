import TreeWatch.Proofs.Agreement
import TreeWatch.Proofs.Bumps
import TreeWatch.Proofs.Searches

/-!
# Replacing a file on a volume

On a volume, what is written may show under other names, and some steps are not allowed. But if what
is opened under the path of the sibling is a file of that name only, a replacement does to the disk
of a volume what it does to a disk, where a step that is not allowed is one that fails by itself
(`Volume.hazard`). What is kept about the sibling moves to the file that it replaces, and nothing
else that is kept changes.

Main results:
  * `Volume.create_agree`, `Volume.rename_agree`, `Volume.remove_agree`: what the primitive steps do
  * `Volume.Opened.swapped`, `Volume.Abandoned.removed`: what a replacement has done when it ends
  * `Volume.beside`: a volume beside its disk, while a file is replaced
-/

namespace TreeWatch

/-- What was there is emptied when it is opened. -/
theorem Disk.create_there {d e : Disk} {path : ByteString} {place : Place} {here : Entry}
    (hCreate : d.create path = .ok (e, place)) (hHere : d.get? place = some here) :
    e = d.write place default := by
  unfold Disk.create at hCreate
  cases hLocate : d.locate .creation path with
  | error fault => rw [hLocate] at hCreate; cases hCreate
  | ok spot =>
    rw [hLocate] at hCreate
    cases spot with
    | vacant dir name =>
      cases hCreate
      rw [Disk.get?_of_vacant hLocate] at hHere
      cases hHere
    | entry found =>
      simp only [bind, Except.bind] at hCreate
      unfold Disk.write
      split at hCreate
      · next contents hFile =>
        cases hCreate
        rw [hFile]
      · next hDevice =>
        cases hCreate
        rw [hDevice]
      · cases hCreate
      · cases hCreate

/-- Nothing stands below what is no directory. -/
theorem Disk.WellFormed.not_above {d : Disk} (h : d.WellFormed) {p q : Place}
    (hNoDir : d.get? p ≠ some .dir) (hHere : d.get? q ≠ none) (hElse : q ≠ p) : ¬ p <+: q := by
  rintro ⟨names, rfl⟩
  obtain ⟨e, hEntry⟩ := Option.ne_none_iff_exists'.mp hHere
  exact hNoDir (h.ancestor (by simpa using hElse) hEntry)

/-- An entry is its own new name. -/
theorem Disk.rename_here {d : Disk} {old new : ByteString} {source : Place} {spot : Spot}
    (hFind : d.find .entry old = .ok source) (hLocate : d.locate .entry new = .ok spot)
    (hSame : source = spot.place) : d.rename old new = .ok d := by
  unfold Disk.rename
  rw [hFind, hLocate]
  cases spot with
  | entry place => exact if_pos hSame
  | vacant dir name => exact if_pos hSame

namespace Volume

variable {v w x : Volume} {place target : Place} {path old new : ByteString} {contents : ByteString}

/-! ## What stands at a place -/

/-- What stands at a place, with what is kept about it. -/
def get? (v : Volume) (place : Place) : Option (Entry × Inode) :=
  (v.disk.get? place).map fun e => (e, v.inode place)

theorem get?_eq_some {e : Entry} {inode : Inode} :
    v.get? place = some (e, inode) ↔ v.disk.get? place = some e ∧ v.inode place = inode := by
  unfold get?
  cases v.disk.get? place with
  | none => simp
  | some here => simp

theorem get?_congr (hDisk : w.disk.get? place = v.disk.get? place)
    (hInode : v.disk.get? place ≠ none → w.inode place = v.inode place) :
    w.get? place = v.get? place := by
  unfold get?
  rw [hDisk]
  cases hHere : v.disk.get? place with
  | none => rfl
  | some e => rw [Option.map_some, Option.map_some, hInode (by simp [hHere])]

theorem disk_of_get? (h : w.get? place = v.get? place) :
    w.disk.get? place = v.disk.get? place := by
  have hEntry := congrArg (Option.map Prod.fst) h
  simpa [get?, Function.comp_def] using hEntry

theorem inode_of_get? (h : w.get? place = v.get? place) (hHere : v.disk.get? place ≠ none) :
    w.inode place = v.inode place := by
  obtain ⟨e, hEntry⟩ := Option.ne_none_iff_exists'.mp hHere
  exact (get?_eq_some.mp (h.trans (get?_eq_some.mpr ⟨hEntry, rfl⟩))).2

/-! ## Files with one name -/

theorem names_own (h : (v.inode place).shared = none) : v.names place = [place] := by
  unfold names
  rw [h]

theorem write_own (h : (v.inode place).shared = none) :
    v.write place contents = { v with disk := v.disk.write place contents } := by
  unfold write
  rw [names_own h]
  rfl

/-- What a file that was created is kept with. -/
theorem create_eq_ok (hCreate : v.create path = .ok (w, place)) :
    (∃ d, v.disk.create path = .ok (d, place)) ∧ w.readsOwn = v.readsOwn ∧
      (∀ q, q ≠ place → w.inode q = v.inode q) ∧
      (v.disk.get? place ≠ none → w.inode place = v.inode place) ∧
      (v.disk.get? place = none → w.inode place = { readable := v.readsOwn }) := by
  obtain ⟨-, hCreate⟩ := guard_eq_ok.mp hCreate
  cases hDisk : v.disk.create path with
  | error fault => rw [hDisk] at hCreate; cases hCreate
  | ok created =>
    obtain ⟨d, found⟩ := created
    simp only [hDisk, bind, Except.bind] at hCreate
    split at hCreate
    · next hFree =>
      cases hCreate
      refine ⟨⟨d, rfl⟩, rfl, fun q hElse => if_neg hElse, fun hHere => absurd hFree hHere,
        fun _ => ?_⟩
      exact if_pos rfl
    · next e hHere =>
      cases hCreate
      refine ⟨⟨d, rfl⟩, rfl, fun _ _ => rfl, fun _ => rfl, fun hFree => ?_⟩
      rw [hHere] at hFree
      cases hFree

/-- What can be opened on the disk of a volume can be opened on the volume, if it is allowed. -/
theorem exists_create {d : Disk} {path : ByteString} (hAdmits : v.admits .creation path = true)
    (hCreate : v.disk.create path = .ok (d, place)) : ∃ w, v.create path = .ok (w, place) := by
  unfold create guard
  rw [if_pos hAdmits, hCreate]
  simp only [bind, Except.bind]
  cases v.disk.get? place with
  | none => exact ⟨_, rfl⟩
  | some e => exact ⟨_, rfl⟩

/-- **Opening a file** of one name only is opening it on the disk. -/
theorem create_agree
    (hOwn : ∀ w place, v.create path = .ok (w, place) → (w.inode place).shared = none) :
    Agree (fun a b => b = (a.1.disk, a.2) ∧ v.create path = .ok a ∧ v.disk.create path = .ok b)
      (v.create path) (v.guard .creation path (v.disk.create path)) := by
  unfold guard
  by_cases hAdmits : v.admits .creation path = true
  · rw [if_pos hAdmits]
    cases hDisk : v.disk.create path with
    | error fault =>
      have hCreate : v.create path = .error fault := by
        unfold create guard
        rw [if_pos hAdmits, hDisk]
        rfl
      rw [hCreate]
      exact .error fault
    | ok created =>
      obtain ⟨d, place⟩ := created
      cases hHere : v.disk.get? place with
      | none =>
        have hCreate : v.create path =
            .ok ({ v with disk := d }.mark place { readable := v.readsOwn }, place) := by
          unfold create guard
          rw [if_pos hAdmits, hDisk]
          simp only [bind, Except.bind, hHere]
          rfl
        rw [hCreate]
        exact .ok ⟨rfl, rfl, rfl⟩
      | some e =>
        have hCreate : v.create path = .ok (v.write place default, place) := by
          unfold create guard
          rw [if_pos hAdmits, hDisk]
          simp only [bind, Except.bind, hHere]
          rfl
        have hAlone : (v.inode place).shared = none :=
          hOwn (v.write place default) place hCreate
        rw [hCreate, write_own hAlone, ← Disk.create_there hDisk hHere]
        exact .ok ⟨rfl, rfl, rfl⟩
  · have hCreate : v.create path = .error .denied := if_neg hAdmits
    rw [if_neg hAdmits, hCreate]
    exact .error .denied

/-- A volume after a file of one name was renamed: what is kept about it has moved. -/
structure Renamed (v : Volume) (old new : ByteString) (w : Volume) : Prop where
  admits : v.admits .entry new = true
  disk : v.disk.rename old new = .ok w.disk
  readsOwn : w.readsOwn = v.readsOwn
  inode : ∃ source spot, v.disk.find .entry old = .ok source ∧
    v.disk.locate .entry new = .ok spot ∧
      w.inode = if source = spot.place then v.inode else moved v.inode source spot.place

/-- **Renaming a file** of one name only is renaming it on the disk. -/
theorem rename_agree
    (hOwn : ∀ source, v.disk.find .entry old = .ok source → (v.inode source).shared = none) :
    Agree (fun a b => b = a.disk ∧ v.Renamed old new a)
      (v.rename old new) (v.guard .entry old <| v.guard .entry new <| v.disk.rename old new) := by
  unfold rename guard
  by_cases hOld : v.admits .entry old = true
  · rw [if_pos hOld, if_pos hOld]
    by_cases hNew : v.admits .entry new = true
    · rw [if_pos hNew, if_pos hNew]
      cases hFind : v.disk.find .entry old with
      | error fault =>
        unfold Disk.rename
        rw [hFind]
        exact .error fault
      | ok source =>
        cases hLocate : v.disk.locate .entry new with
        | error fault =>
          unfold Disk.rename
          rw [hFind, hLocate]
          exact .error fault
        | ok spot =>
          simp only [bind, Except.bind, names_own (hOwn source hFind), List.mem_singleton]
          by_cases hSame : spot.place = source
          · have hRename := Disk.rename_here hFind hLocate hSame.symm
            rw [if_pos hSame, hRename]
            exact .ok ⟨rfl, hNew, hRename, rfl, source, spot, hFind, hLocate,
              (if_pos hSame.symm).symm⟩
          · rw [if_neg hSame]
            cases hRename : v.disk.rename old new with
            | error fault => exact .error fault
            | ok d =>
              exact .ok ⟨rfl, hNew, hRename, rfl, source, spot, hFind, hLocate,
                (if_neg (Ne.symm hSame)).symm⟩
    · rw [if_neg hNew, if_neg hNew]
      exact .error .denied
  · rw [if_neg hOld, if_neg hOld]
    exact .error .denied

/-- A volume after a name was removed. -/
structure Removed (v : Volume) (path : ByteString) (w : Volume) : Prop where
  disk : v.disk.remove path = .ok w.disk
  readsOwn : w.readsOwn = v.readsOwn
  inode : ∃ place, v.disk.find .entry path = .ok place ∧
    ∀ q, w.inode q = if q = place then {} else v.inode q

/-- **Removing a name** is removing it from the disk. -/
theorem remove_agree (v : Volume) (path : ByteString) :
    Agree (fun a b => b = a.disk ∧ v.Removed path a)
      (v.remove path) (v.guard .entry path <| v.disk.remove path) := by
  unfold remove guard
  by_cases hAdmits : v.admits .entry path = true
  · rw [if_pos hAdmits, if_pos hAdmits]
    cases hFind : v.disk.find .entry path with
    | error fault =>
      unfold Disk.remove
      rw [hFind]
      exact .error fault
    | ok place =>
      simp only [bind, Except.bind]
      cases hRemove : v.disk.remove path with
      | error fault => exact .error fault
      | ok d =>
        exact .ok ⟨rfl, hRemove, rfl, place, hFind, fun _ => rfl⟩
  · rw [if_neg hAdmits, if_neg hAdmits]
    exact .error .denied

/-! ## What is not allowed -/

/-- Whether the process may look up all names that a step of a replacement needs. -/
def allows (v : Volume) (temporary path : Path) : Primitive → Bool
  | .create => v.admits .creation temporary.native
  | .rename => v.admits .entry temporary.native && v.admits .entry path.native
  | .remove => v.admits .entry temporary.native
  | .write | .sync => true

/-- What goes wrong with a replacement on the disk of a volume: what goes wrong by itself, and what
is not allowed. -/
def hazard (v : Volume) (h : Hazard) (temporary path : Path) : Hazard where
  fails step := (h.fails step).or (if v.allows temporary path step then none else some .denied)
  written := h.written

section Replacements

variable {h : Hazard} {temporary path root : Path} {s t : String}

theorem hazard_guard {α : Type} (h : Hazard) (temporary path : Path) (step : Primitive)
    (action : Except Fault α) : (v.hazard h temporary path).guard step action =
      h.guard step (if v.allows temporary path step then action else .error .denied) := by
  have hFails : (v.hazard h temporary path).fails step =
      (h.fails step).or (if v.allows temporary path step then none else some .denied) := rfl
  unfold Hazard.guard
  rw [hFails]
  cases h.fails step with
  | some fault => rfl
  | none => cases v.allows temporary path step <;> rfl

/-! ## Stages -/

/-- Nothing is changed besides some places, and no directory is. -/
structure Kept (v : Volume) (touched : Place → Prop) (x : Volume) : Prop where
  readsOwn : x.readsOwn = v.readsOwn
  places : ∀ q, (touched q → v.disk.get? q = some .dir) → x.get? q = v.get? q

theorem Kept.refl {touched : Place → Prop} : v.Kept touched v :=
  ⟨rfl, fun _ _ => rfl⟩

theorem Kept.mono {touched more : Place → Prop} (h : v.Kept touched x)
    (hMore : ∀ q, touched q → more q) : v.Kept more x :=
  ⟨h.readsOwn, fun q hNot => h.places q fun hTouched => hNot (hMore q hTouched)⟩

/-- What is kept about directories does not change. -/
theorem Kept.dir {touched : Place → Prop} (h : v.Kept touched x) {q : Place}
    (hDir : v.disk.get? q = some .dir) : x.inode q = v.inode q :=
  inode_of_get? (h.places q fun _ => hDir) (by simp [hDir])

/-- The volume while the sibling is open. -/
structure Opened (v : Volume) (temporary : Path) (x : Volume) (place : Place) : Prop where
  drafted : Drafted temporary v.disk x.disk place
  created : ∃ w, v.create temporary.native = .ok (w, place) ∧ x.inode = w.inode ∧
    x.readsOwn = w.readsOwn

/-- The volume before the sibling is removed. -/
structure Abandoned (v : Volume) (temporary : Path) (x : Volume) : Prop where
  sound : x.disk.Sound
  ways : v.disk.SameWays x.disk
  kept : v.Kept (v.disk.Names temporary) x

/-- The volume with the sibling in the stead of what the path named. -/
structure Swapped (v : Volume) (temporary path : Path) (x : Volume) : Prop where
  admits : v.admits .entry path.native = true
  kept : v.Kept (fun q => v.disk.Names temporary q ∨ v.disk.Names path q) x
  inode : ∃ w place, v.create temporary.native = .ok (w, place) ∧
    ∀ q, v.disk.Names path q → ∃ e, x.get? q = some (e, w.inode place)

theorem Opened.kept (hOpen : v.Opened temporary x place) :
    v.Kept (v.disk.Names temporary) x := by
  obtain ⟨hDraft, w, hCreate, hInode, hReads⟩ := hOpen
  obtain ⟨-, hOwn, hElse, -, -⟩ := create_eq_ok hCreate
  refine ⟨hReads.trans hOwn, fun q hNot => ?_⟩
  have hOther : q ≠ place := by
    rintro rfl
    exact hDraft.blocked.noDir (hNot hDraft.names)
  exact get?_congr (hDraft.others q hOther) fun _ => by rw [hInode, hElse q hOther]

theorem Opened.abandoned (hOpen : v.Opened temporary x place) : v.Abandoned temporary x :=
  ⟨hOpen.drafted.sound, hOpen.drafted.sameWays, hOpen.kept⟩

theorem Abandoned.admits (hLeft : v.Abandoned temporary x) (hSound : v.disk.Sound)
    {ending : Ending} {path : ByteString} : x.admits ending path = v.admits ending path :=
  admits_eq hSound hLeft.ways fun _ hDir => hLeft.kept.dir hDir

/-- What was removed is gone, and nothing else has changed. -/
theorem Removed.get? {y : Volume} (hRemove : x.Removed temporary.native y) (hSound : x.disk.Sound)
    (hSibling : temporary.EntryOf root t) : ∃ place, x.disk.Names temporary place ∧
      x.disk.get? place ≠ some .dir ∧ y.get? place = none ∧
      ∀ q, q ≠ place → y.get? q = x.get? q := by
  obtain ⟨place, hNames, -, hNoDir, hDisk⟩ := Disk.erased_of_remove hRemove.disk
  have hErase {q : Place} := Disk.get?_erase (q := q) hSound.toWellFormed (hSibling.ne_nil hNames)
  obtain ⟨found, hFind, hInode⟩ := hRemove.inode
  obtain rfl := (Disk.names_of_find hFind).unique hNames
  refine ⟨found, hNames, hNoDir, ?_, fun q hElse => get?_congr ?_ fun _ => ?_⟩
  · unfold Volume.get?
    rw [hDisk, hErase, if_pos rfl]
    rfl
  · rw [hDisk, hErase, if_neg hElse]
  · rw [hInode, if_neg hElse]

/-- Removing the sibling changes nothing else. -/
theorem Abandoned.removed {y : Volume} (hLeft : v.Abandoned temporary x)
    (hSibling : temporary.EntryOf root t) (hRemove : x.Removed temporary.native y) :
    v.Kept (v.disk.Names temporary) y := by
  obtain ⟨place, hNames, hNoDir, -, hOthers⟩ := hRemove.get? hLeft.sound hSibling
  rw [hSibling.names_of_sameWays hLeft.ways] at hNames
  refine ⟨hRemove.readsOwn.trans hLeft.kept.readsOwn, fun q hNot => ?_⟩
  have hSame := hLeft.kept.places q hNot
  have hElse : q ≠ place := by
    rintro rfl
    exact hNoDir ((disk_of_get? hSame).trans (hNot hNames))
  rw [hOthers q hElse, hSame]

/-- Both names of a renaming have to be looked up. -/
theorem guard_rename {α : Type} {action : Except Fault α}
    (hAdmits : ∀ ending path, x.admits ending path = v.admits ending path) :
    (x.guard .entry temporary.native <| x.guard .entry path.native action) =
      if v.allows temporary path .rename then action else .error .denied := by
  unfold guard allows
  rw [hAdmits, hAdmits]
  cases v.admits .entry temporary.native <;> cases v.admits .entry path.native <;> rfl

/-- Writing the sibling changes nothing else. -/
theorem Opened.write (hOpen : v.Opened temporary x place) (hSibling : temporary.EntryOf root t)
    (hAlone : (x.inode place).shared = none) (contents : ByteString) :
    (x.write place contents).disk = x.disk.write place contents ∧
      v.Opened temporary (x.write place contents) place := by
  rw [write_own hAlone]
  exact ⟨rfl, (hOpen.drafted.write hSibling contents).1, hOpen.created⟩

/-- **A sibling that was renamed** took what is kept about it along, and nothing else has
changed. -/
theorem Renamed.of_file {y : Volume} {dir : Place} {draft : ByteString}
    (hRename : x.Renamed temporary.native path.native y) (hSound : x.disk.Sound)
    (hSibling : temporary.EntryOf root t) (hFile : path.EntryOf root s) (hNe : t ≠ s)
    (hEnters : x.disk.Enters root dir)
    (hHere : x.disk.get? (dir ++ [.text t]) = some (.file draft)) :
    x.disk.Names path (dir ++ [.text s]) ∧ x.disk.get? (dir ++ [.text s]) ≠ some .dir ∧
      y.get? (dir ++ [.text s]) = x.get? (dir ++ [.text t]) ∧
      y.get? (dir ++ [.text t]) = none ∧
      ∀ q, q ≠ dir ++ [.text t] → q ≠ dir ++ [.text s] → y.get? q = x.get? q := by
  obtain ⟨source, spot, hFind, hLocate, hInode⟩ := hRename.inode
  have hUsable : temporary.Usable := Disk.usable_of_locate (Disk.find_eq_ok.mp hFind)
  have hPath : path.Usable := Disk.usable_of_locate hLocate
  have hApart : (.text t : Name) ≠ .text s := fun hSame => hNe (ByteString.text.inj hSame)
  have hBeside : dir ++ [(.text t : Name)] ≠ dir ++ [.text s] := by simpa using hNe
  have hRenamed := hRename.disk
  rw [Disk.rename_file hEnters hSibling hFile hNe hUsable hPath hHere] at hRenamed
  by_cases hFree : x.disk.get? (dir ++ [.text s]) = some .dir
  · rw [if_pos hFree] at hRenamed
    cases hRenamed
  rw [if_neg hFree] at hRenamed
  obtain ⟨-, hPlaces⟩ := hSound.toWellFormed.renamed_file (hSound.enters_dir hEnters) hFile.valid
    hApart hHere hFree
  rw [Except.ok.inj hRenamed] at hPlaces
  -- the places are those of the two names
  have hTarget : x.disk.Names path (dir ++ [.text s]) :=
    hFile.names.mpr ⟨hPath, dir, hEnters, rfl⟩
  obtain rfl : source = dir ++ [.text t] := (Disk.names_of_find hFind).unique
    (hSibling.names.mpr ⟨hUsable, dir, hEnters, rfl⟩)
  rw [Disk.Names.unique ⟨spot, hLocate, rfl⟩ hTarget] at hInode
  have hMoved := hInode.trans (if_neg hBeside)
  refine ⟨hTarget, hFree, ?_, ?_, fun q hThere hElse => get?_congr ?_ fun hSome => ?_⟩
  · unfold get?
    rw [hPlaces, if_pos rfl, hHere, hMoved, moved, if_pos List.prefix_rfl, List.drop_length,
      List.append_nil]
  · unfold get?
    rw [hPlaces, if_neg hBeside, if_pos rfl]
    rfl
  · rw [hPlaces, if_neg hElse, if_neg hThere]
  · -- nothing stands below either of them
    have hNoDir : x.disk.get? (dir ++ [.text t]) ≠ some .dir := by simp [hHere]
    rw [hMoved, moved, if_neg (hSound.toWellFormed.not_above hFree hSome hElse),
      if_neg (hSound.toWellFormed.not_above hNoDir hSome hThere)]

/-- Renaming the sibling changes the file and the sibling only. -/
theorem Opened.swapped {y : Volume} {draft : ByteString} (hOpen : v.Opened temporary x place)
    (hSound : v.disk.Sound) (hSibling : temporary.EntryOf root t) (hFile : path.EntryOf root s)
    (hNe : t ≠ s) (hContents : x.disk.get? place = some (.file draft))
    (hRename : x.Renamed temporary.native path.native y) : v.Swapped temporary path y := by
  have hDraft := hOpen.drafted
  obtain ⟨-, dir, hEnters, rfl⟩ := hSibling.names.mp hDraft.names
  obtain ⟨hTarget, hFree, hNew, -, hOthers⟩ := hRename.of_file hDraft.sound hSibling hFile hNe
    (hEnters.of_sameWays hDraft.sameWays) hContents
  rw [hFile.names_of_sameWays hDraft.sameWays] at hTarget
  have hBeside : dir ++ [(.text t : Name)] ≠ dir ++ [.text s] := by simpa using hNe
  obtain ⟨w, hCreate, hKept, -⟩ := hOpen.created
  refine ⟨?_, ⟨?_, fun q hNot => ?_⟩, w, _, hCreate, fun q hNames => ?_⟩
  · rw [← hOpen.abandoned.admits hSound]
    exact hRename.admits
  · rw [hRename.readsOwn, hOpen.kept.readsOwn]
  · -- what is kept is neither of the two names, as neither is a directory
    have hAway : q ≠ dir ++ [.text s] := by
      rintro rfl
      refine hFree ?_
      rw [hDraft.others _ hBeside.symm]
      exact hNot (Or.inr hTarget)
    have hElse : q ≠ dir ++ [.text t] := by
      rintro rfl
      exact hDraft.blocked.noDir (hNot (Or.inl hDraft.names))
    rw [hOthers q hElse hAway, hOpen.kept.places q fun hNames => hNot (Or.inl hNames)]
  · obtain rfl := hNames.unique hTarget
    rw [← hKept]
    exact ⟨_, hNew.trans (get?_eq_some.mpr ⟨hContents, rfl⟩)⟩

/-- **A volume beside its disk**, while a file is replaced by way of a sibling of one name. -/
def beside (v : Volume) (h : Hazard) (hSound : v.disk.Sound) (hSibling : temporary.EntryOf root t)
    (hFile : path.EntryOf root s) (hNe : t ≠ s)
    (hOwn : ∀ w place, v.create temporary.native = .ok (w, place) →
      v.disk.Names temporary place ∧ (w.inode place).shared = none) :
    SideBySide Volume Disk h (v.hazard h temporary path) temporary path where
  begun x y := x = v ∧ y = v.disk
  opened x y place := y = x.disk ∧ v.Opened temporary x place
  abandoned x y := y = x.disk ∧ v.Abandoned temporary x
  failed x y := y = x.disk ∧ v.Kept (v.disk.Names temporary) x
  replaced x y := y = x.disk ∧ v.Swapped temporary path x
  writes := by
    refine ⟨?_, rfl⟩
    show (h.fails .write).or none = _
    rw [Option.or_none]
  create := by
    rintro x y ⟨rfl, rfl⟩
    rw [hazard_guard]
    refine Agree.imp
      ((create_agree fun w place hCreate => (hOwn w place hCreate).2).guard h .create) ?_
    rintro ⟨w, place⟩ b ⟨rfl, hCreate, hDisk⟩
    have hNames := (hOwn w place hCreate).1
    exact ⟨rfl, rfl, .of_create hSound hSibling hNames hDisk, w, hCreate, rfl, rfl⟩
  write := by
    rintro x y place contents ⟨rfl, hOpen⟩
    obtain ⟨w, hCreate, hInode, -⟩ := hOpen.created
    have hAlone : (x.inode place).shared = none := hInode ▸ (hOwn w place hCreate).2
    obtain ⟨hDisk, hStill⟩ := hOpen.write hSibling hAlone contents
    exact ⟨hDisk.symm, hStill⟩
  sync := by
    rintro x y place ⟨rfl, hOpen⟩
    rw [hazard_guard]
    rfl
  rename := by
    rintro x y place ⟨rfl, hOpen⟩ hSync
    have hAdmits {ending : Ending} {path : ByteString} :
        x.admits ending path = v.admits ending path := hOpen.abandoned.admits hSound
    have hDraft := hOpen.drafted
    have hAlone (source : Place) (hFind : x.disk.find .entry temporary.native = .ok source) :
        (x.inode source).shared = none := by
      obtain rfl : source = place := (Disk.names_of_find hFind).unique
        ((hSibling.names_of_sameWays hDraft.sameWays).mpr hDraft.names)
      obtain ⟨w, hCreate, hInode, -⟩ := hOpen.created
      exact hInode ▸ (hOwn w _ hCreate).2
    -- the way to both names is as free as it was, as only files have changed
    rw [hazard_guard, ← guard_rename fun _ _ => hAdmits]
    refine Agree.imp ((rename_agree hAlone).guard h .rename) ?_
    rintro z e ⟨rfl, hRenamed⟩
    rcases hDraft.here with ⟨draft, hContents⟩ | hDevice
    · exact ⟨rfl, hOpen.swapped hSound hSibling hFile hNe hContents hRenamed⟩
    · exact absurd hDevice (Disk.no_device_of_sync hSync)
  remove := by
    rintro x y ⟨rfl, hLeft⟩
    have hRemove : (if v.allows temporary path .remove then x.disk.remove temporary.native
        else .error .denied) =
          x.guard .entry temporary.native (x.disk.remove temporary.native) := by
      unfold guard
      rw [hLeft.admits hSound]
      rfl
    rw [hazard_guard, Disk.fileSystem_remove, hRemove]
    refine Agree.imp ((x.remove_agree temporary.native).guard h .remove) ?_
    rintro z e ⟨rfl, hRemoved⟩
    exact ⟨rfl, hLeft.removed hSibling hRemoved⟩
  uncreated := by
    rintro x y ⟨rfl, rfl⟩
    exact ⟨rfl, hSound, ⟨rfl, fun _ => Or.inl rfl⟩, .refl⟩
  closed := by
    rintro x y place ⟨rfl, hOpen⟩
    exact ⟨rfl, hOpen.abandoned⟩
  unremoved := by
    rintro x y ⟨rfl, hLeft⟩
    exact ⟨rfl, hLeft.kept⟩

end Replacements

end Volume

end TreeWatch
