import TreeWatch.Proofs.Containment

/-!
# Bumps side by side

A bump looks at the entries of one directory and changes entries of the same directory. So it goes
the same way on disks that are alike there (`Disk.Alike`), and on volumes that are (`Volume.Alike`):
the paths of the root and its entries lead to the same, may be followed alike, and what is done to
the entries of the one volume is done to those of the other.

Main results:
  * `Disk.Alike.create`, `Disk.Alike.rename`, `Disk.Alike.remove`: primitive steps on disks
  * `Volume.besideAlike`: a replacement on two volumes that are alike
  * `Volume.Alike.bump`: a bump goes the same way on both
-/

namespace TreeWatch

/-! ## Disks that are alike -/

namespace Disk

/-- Two disks on which all paths lead to the same directories, with the same entries in one of these
and no link among them. -/
structure Alike (dir : Place) (d e : Disk) : Prop where
  sound : d.Sound
  sound' : e.Sound
  ways : d.SameWays e
  entries : ∀ name, e.get? (dir ++ [name]) = d.get? (dir ++ [name])
  noLink : ∀ name target, d.get? (dir ++ [name]) ≠ some (.link target)

variable {d d' e e' : Disk} {dir : Place} {name sibling : Name} {contents draft : ByteString}

/-- A path that the system does not take is refused before the disk is looked at. -/
theorem locate_refused {p : Path} {ending : Ending} (h : ¬ (p.Usable ∧ p.spelling ≠ ""))
    (d e : Disk) : e.locate ending p.native = d.locate ending p.native := by
  unfold locate
  by_cases hNul : 0 ∈ p.native.bytes
  · rw [if_pos hNul, if_pos hNul]
  by_cases hEmpty : p.native = .text ""
  · rw [if_neg hNul, if_neg hNul, if_pos hEmpty, if_pos hEmpty]
  by_cases hLong : maxPath ≤ p.native.size
  · rw [if_neg hNul, if_neg hNul, if_neg hEmpty, if_neg hEmpty, if_pos hLong, if_pos hLong]
  · have hSome : p.spelling ≠ "" := fun hNone => hEmpty (congrArg ByteString.text hNone)
    exact absurd ⟨⟨hNul, Nat.lt_of_not_le hLong⟩, hSome⟩ h

namespace Alike

/-- Rewritten in the same places in the same way, they stay alike. -/
theorem rewritten (h : Alike dir d e) (hLeft : d.Rewritten dir d') (hRight : e.Rewritten dir e')
    (hPlaces : ∀ q, e'.get? q = d'.get? q ∨ d'.get? q = d.get? q ∧ e'.get? q = e.get? q) :
    Alike dir d' e' where
  sound := hLeft.sound
  sound' := hRight.sound
  ways := by
    refine ⟨by rw [hRight.home, h.ways.home, hLeft.home], fun q => ?_⟩
    rcases hPlaces q with hSame | ⟨hOld, hOld'⟩
    · exact Or.inl hSame
    -- where nothing was changed, they differ as they did before, if at all
    rcases h.ways.ways q with hSame | ⟨hBlocked, hBlocked'⟩
    · exact Or.inl (by rw [hOld, hOld', hSame])
    · exact Or.inr ⟨⟨hOld ▸ hBlocked.noDir, hOld ▸ hBlocked.noLink⟩,
        ⟨hOld' ▸ hBlocked'.noDir, hOld' ▸ hBlocked'.noLink⟩⟩
  entries name := by
    rcases hPlaces (dir ++ [name]) with hSame | ⟨hOld, hOld'⟩
    · exact hSame
    · rw [hOld, hOld', h.entries]
  noLink name target := by
    rcases hLeft.places (dir ++ [name]) with hSame | ⟨-, -, hNone | ⟨contents, hFile⟩⟩
    · rw [hSame]
      exact h.noLink name target
    · simp [hNone]
    · simp [hFile]

theorem set_file (h : Alike dir d e) (hDir : d.get? dir = some .dir) (hName : Name.Valid name)
    (hFree : d.get? (dir ++ [name]) ≠ some .dir) :
    Alike dir (d.set (dir ++ [name]) (.file draft)) (e.set (dir ++ [name]) (.file draft)) := by
  refine h.rewritten (.set_file h.sound hDir hName hFree)
    (.set_file h.sound' ((h.ways.dir_iff dir).mpr hDir) hName (h.entries name ▸ hFree)) fun q => ?_
  rw [get?_set h.sound.toWellFormed (by simp), get?_set h.sound'.toWellFormed (by simp)]
  by_cases hHere : q = dir ++ [name]
  · exact Or.inl (by rw [if_pos hHere, if_pos hHere])
  · exact Or.inr ⟨if_neg hHere, if_neg hHere⟩

theorem erase (h : Alike dir d e) (hLeaf : d.get? (dir ++ [name]) ≠ some .dir) :
    Alike dir (d.erase (dir ++ [name])) (e.erase (dir ++ [name])) := by
  refine h.rewritten (.erase h.sound hLeaf) (.erase h.sound' (h.entries name ▸ hLeaf)) fun q => ?_
  rw [get?_erase h.sound.toWellFormed (by simp), get?_erase h.sound'.toWellFormed (by simp)]
  by_cases hHere : q = dir ++ [name]
  · exact Or.inl (by rw [if_pos hHere, if_pos hHere])
  · exact Or.inr ⟨if_neg hHere, if_neg hHere⟩

theorem renamed_file (h : Alike dir d e) (hDir : d.get? dir = some .dir) (hName : Name.Valid name)
    (hNe : sibling ≠ name) (hFile : d.get? (dir ++ [sibling]) = some (.file contents))
    (hFree : d.get? (dir ++ [name]) ≠ some .dir) :
    Alike dir (d.renamed (dir ++ [sibling]) (dir ++ [name]))
      (e.renamed (dir ++ [sibling]) (dir ++ [name])) := by
  have hDir' := (h.ways.dir_iff dir).mpr hDir
  have hFile' : e.get? (dir ++ [sibling]) = some (.file contents) := h.entries sibling ▸ hFile
  have hFree' : e.get? (dir ++ [name]) ≠ some .dir := h.entries name ▸ hFree
  refine h.rewritten (.renamed_file h.sound hDir hName hNe hFile hFree)
    (.renamed_file h.sound' hDir' hName hNe hFile' hFree') fun q => ?_
  rw [(h.sound.toWellFormed.renamed_file hDir hName hNe hFile hFree).2,
    (h.sound'.toWellFormed.renamed_file hDir' hName hNe hFile' hFree').2]
  by_cases hHere : q = dir ++ [name]
  · exact Or.inl (by rw [if_pos hHere, if_pos hHere])
  by_cases hThere : q = dir ++ [sibling]
  · exact Or.inl (by rw [if_neg hHere, if_neg hHere, if_pos hThere, if_pos hThere])
  · exact Or.inr ⟨by rw [if_neg hHere, if_neg hThere], by rw [if_neg hHere, if_neg hThere]⟩

theorem write (h : Alike dir d e) (hDir : d.get? dir = some .dir) (hName : Name.Valid name)
    (contents : ByteString) :
    Alike dir (d.write (dir ++ [name]) contents) (e.write (dir ++ [name]) contents) := by
  unfold Disk.write
  rw [h.entries]
  split
  · next draft hFile => exact h.set_file hDir hName (by simp [hFile])
  · exact h

end Alike

end Disk

namespace Disk.Alike

variable {h : Hazard} {d e : Disk} {dir : Place} {root temporary path : Path}
  {s t contents : String} {draft : ByteString} {ending : Ending}

/-- The path of an entry of the directory leads to the same. -/
theorem locate_eq (hAlike : Alike dir d e) (hEntry : path.EntryOf root s)
    (hEnters : d.Enters root dir) :
    e.locate ending path.native = d.locate ending path.native := by
  by_cases hUsable : path.Usable
  · have hLast (target : ByteString) : e.get? (dir ++ [.text s]) ≠ some (.link target) := by
      rw [hAlike.entries]
      exact hAlike.noLink _ target
    rw [hEntry.locate (hEnters.of_sameWays hAlike.ways) hUsable (Or.inr hLast),
      hEntry.locate hEnters hUsable (Or.inr (hAlike.noLink _))]
    unfold leaf
    rw [hAlike.entries]
  · exact locate_refused (fun hTaken => hUsable hTaken.1) d e

theorem find_eq (hAlike : Alike dir d e) (hEntry : path.EntryOf root s)
    (hEnters : d.Enters root dir) : e.find ending path.native = d.find ending path.native := by
  unfold Disk.find
  rw [hAlike.locate_eq hEntry hEnters]

/-- What stands at the place of an open sibling: a file, or a device. -/
def Opened (d : Disk) (place : Place) : Prop :=
  (∃ draft, d.get? place = some (.file draft)) ∨ d.get? place = some .device

theorem Opened.noDir {place : Place} (hOpen : Opened d place) : d.get? place ≠ some .dir := by
  rcases hOpen with ⟨draft, hFile⟩ | hDevice
  · simp [hFile]
  · simp [hDevice]

theorem Opened.ne_none {place : Place} (hOpen : Opened d place) : d.get? place ≠ none := by
  rcases hOpen with ⟨draft, hFile⟩ | hDevice
  · simp [hFile]
  · simp [hDevice]

theorem Opened.write (hOpen : Opened d (dir ++ [.text t])) (contents : ByteString) :
    Opened (d.write (dir ++ [.text t]) contents) (dir ++ [.text t]) := by
  unfold Disk.write
  rcases hOpen with ⟨draft, hHere⟩ | hDevice
  · rw [hHere]
    exact Or.inl ⟨contents, get?_set_here d (by simp) _⟩
  · rw [hDevice]
    exact Or.inr hDevice

/-- Rewriting the directory leaves the root leading there. -/
theorem enters_of_rewritten {d' : Disk} (hAlike : Alike dir d e) (hEnters : d.Enters root dir)
    (hRewritten : d.Rewritten dir d') : d'.Enters root dir :=
  hEnters.of_sameWays (hRewritten.sameWays_of_noLink hAlike.noLink)

theorem create (hAlike : Alike dir d e) (hSibling : temporary.EntryOf root t)
    (hEnters : d.Enters root dir) :
    Agree (fun x y => x.2 = dir ++ [.text t] ∧ y.2 = dir ++ [.text t] ∧ Alike dir x.1 y.1 ∧
        x.1.Enters root dir ∧ Opened x.1 (dir ++ [.text t]))
      (d.create temporary.native) (e.create temporary.native) := by
  have hDir := hAlike.sound.enters_dir hEnters
  have hNew (hFree : d.get? (dir ++ [.text t]) ≠ some .dir) :
      Alike dir (d.set (dir ++ [.text t]) (.file default))
          (e.set (dir ++ [.text t]) (.file default)) ∧
        (d.set (dir ++ [.text t]) (.file default)).Enters root dir ∧
        Opened (d.set (dir ++ [.text t]) (.file default)) (dir ++ [.text t]) :=
    ⟨hAlike.set_file hDir hSibling.valid hFree,
      hAlike.enters_of_rewritten hEnters (.set_file hAlike.sound hDir hSibling.valid hFree),
      Or.inl ⟨_, get?_set_here d (by simp) _⟩⟩
  unfold Disk.create
  rw [hAlike.locate_eq hSibling hEnters]
  cases hLocate : d.locate .creation temporary.native with
  | error fault => exact .error fault
  | ok spot =>
    rw [hSibling.locate hEnters (usable_of_locate hLocate) (Or.inr (hAlike.noLink _))] at hLocate
    obtain rfl := Except.ok.inj hLocate
    unfold leaf
    cases hHere : d.get? (dir ++ [.text t]) with
    | none => exact .ok ⟨rfl, rfl, hNew (by simp [hHere])⟩
    | some found =>
      simp only [Option.isSome_some, if_true, bind, Except.bind]
      rw [hAlike.entries, hHere]
      cases found with
      | file old => exact .ok ⟨rfl, rfl, hNew (by simp [hHere])⟩
      | device => exact .ok ⟨rfl, rfl, hAlike, hEnters, Or.inr hHere⟩
      | socket => exact .error .noDevice
      | dir | link target => exact .error .isDirectory

theorem remove (hAlike : Alike dir d e) (hSibling : temporary.EntryOf root t)
    (hEnters : d.Enters root dir) :
    Agree (Alike dir) (d.remove temporary.native) (e.remove temporary.native) := by
  unfold Disk.remove
  rw [hAlike.find_eq hSibling hEnters]
  cases hFind : d.find .entry temporary.native with
  | error fault => exact .error fault
  | ok place =>
    obtain rfl := hSibling.place_eq hEnters (names_of_find hFind)
    simp only [bind, Except.bind]
    rw [hAlike.entries]
    cases hHere : d.get? (dir ++ [.text t]) with
    | none => exact .error .isDirectory
    | some found =>
      cases found with
      | dir => exact .error .isDirectory
      | file old | link target | socket | device => exact .ok (hAlike.erase (by simp [hHere]))

theorem rename (hAlike : Alike dir d e) (hSibling : temporary.EntryOf root t)
    (hFile : path.EntryOf root s) (hNe : t ≠ s) (hEnters : d.Enters root dir)
    (hUsable : temporary.Usable) (hHere : d.get? (dir ++ [.text t]) = some (.file draft)) :
    Agree (Alike dir) (d.rename temporary.native path.native)
      (e.rename temporary.native path.native) := by
  have hHere' : e.get? (dir ++ [.text t]) = some (.file draft) := hAlike.entries _ ▸ hHere
  by_cases hPath : path.Usable
  · rw [rename_file hEnters hSibling hFile hNe hUsable hPath hHere,
      rename_file (hEnters.of_sameWays hAlike.ways) hSibling hFile hNe hUsable hPath hHere',
      hAlike.entries]
    have hApart : (.text t : Name) ≠ .text s := fun hSame => hNe (ByteString.text.inj hSame)
    split
    · exact .error .isDirectory
    · next hFree =>
      have hDir := hAlike.sound.enters_dir hEnters
      exact .ok (hAlike.renamed_file hDir hFile.valid hApart hHere hFree)
  · unfold Disk.rename
    rw [hAlike.find_eq hSibling hEnters, hAlike.locate_eq hFile hEnters,
      hSibling.find hEnters hUsable (Or.inl rfl) hHere]
    cases hLocate : d.locate .entry path.native with
    | ok spot => exact absurd (usable_of_locate hLocate) hPath
    | error fault => exact .error fault

end Disk.Alike

/-! ## Volumes that are alike -/

namespace Volume

/-- Two volumes whose disks are alike in a directory, with the same kept about the entries there and
about all directories. -/
structure Alike (dir : Place) (v w : Volume) : Prop where
  disk : Disk.Alike dir v.disk w.disk
  readsOwn : w.readsOwn = v.readsOwn
  dirs : ∀ q, v.disk.get? q = some .dir → w.inode q = v.inode q
  entries : ∀ name, w.get? (dir ++ [name]) = v.get? (dir ++ [name])

variable {h : Hazard} {v w x y a b : Volume} {dir place : Place} {root temporary path : Path}
  {s t : String} {draft contents : ByteString} {ending : Ending}

namespace Alike

theorem admits (hAlike : Alike dir v w) {path : ByteString} :
    w.admits ending path = v.admits ending path :=
  admits_eq hAlike.disk.sound hAlike.disk.ways hAlike.dirs

/-- A path may be followed on both or on neither. -/
theorem guard {α β : Type} {R : α → β → Prop} {left : Except Fault α} {right : Except Fault β}
    (hAlike : Alike dir v w) (h : Agree R left right) (ending : Ending) (path : ByteString) :
    Agree R (v.guard ending path left) (w.guard ending path right) := by
  unfold Volume.guard
  rw [hAlike.admits]
  split
  · exact h
  · exact .error .denied

/-- What was changed in the same way is still alike. -/
theorem of_get? (hAlike : Alike dir v w) (hDisk : Disk.Alike dir a.disk b.disk)
    (hReads : a.readsOwn = v.readsOwn ∧ b.readsOwn = w.readsOwn)
    (hEntries : ∀ name, b.get? (dir ++ [name]) = a.get? (dir ++ [name]))
    (hDirs : ∀ q inode, a.get? q = some (.dir, inode) →
      a.get? q = v.get? q ∧ b.get? q = w.get? q) :
    Alike dir a b where
  disk := hDisk
  readsOwn := by rw [hReads.1, hReads.2, hAlike.readsOwn]
  dirs q hDir := by
    obtain ⟨hLeft, hRight⟩ := hDirs q _ (get?_eq_some.mpr ⟨hDir, rfl⟩)
    have hOld : v.disk.get? q = some .dir := (disk_of_get? hLeft).symm.trans hDir
    have hOld' : w.disk.get? q = some .dir := (hAlike.disk.ways.dir_iff q).mpr hOld
    rw [inode_of_get? hLeft (by simp [hOld]), inode_of_get? hRight (by simp [hOld']),
      hAlike.dirs q hOld]
  entries := hEntries

end Alike

/-- Two volumes that are alike while the sibling is open on both. -/
structure OpenedBoth (dir : Place) (temporary root : Path) (t : String) (x y : Volume)
    (place : Place) : Prop where
  alike : Alike dir x y
  enters : x.disk.Enters root dir
  here : place = dir ++ [.text t]
  opened : Disk.Alike.Opened x.disk place
  alone : (x.inode place).shared = none
  usable : temporary.Usable

/-- Opening a file changes nothing else. -/
theorem get?_of_create {path : ByteString} (hTree : v.disk.WellFormed) (hPlace : place ≠ [])
    (hCreate : v.create path = .ok (x, place)) (hDisk : v.disk.create path = .ok (x.disk, place))
    {q : Place} (hElse : q ≠ place) : x.get? q = v.get? q := by
  obtain ⟨-, -, hOthers, -, -⟩ := create_eq_ok hCreate
  refine get?_congr ?_ fun _ => hOthers q hElse
  obtain ⟨-, -, hSet | ⟨hSame, -⟩⟩ := Disk.created_of_create hDisk
  · rw [hSet, Disk.get?_set hTree hPlace, if_neg hElse]
  · rw [hSame]

/-- Nor does writing it. -/
theorem get?_of_write (hTree : x.disk.WellFormed) (hPlace : place ≠ [])
    (hAlone : (x.inode place).shared = none) {q : Place} (hElse : q ≠ place) :
    (x.write place contents).get? q = x.get? q := by
  rw [write_own hAlone]
  refine get?_congr ?_ fun _ => rfl
  show (x.disk.write place contents).get? q = x.disk.get? q
  unfold Disk.write
  split
  · rw [Disk.get?_set hTree hPlace, if_neg hElse]
  · rfl

namespace Alike

/-- What a file is opened with on the one volume it is opened with on the other. -/
theorem inode_of_create {path : ByteString} {name : Name} (hAlike : Alike dir v w)
    (hLeft : v.create path = .ok (a, dir ++ [name]))
    (hRight : w.create path = .ok (b, dir ++ [name])) :
    b.inode (dir ++ [name]) = a.inode (dir ++ [name]) := by
  obtain ⟨-, -, -, hOld, hNew⟩ := create_eq_ok hLeft
  obtain ⟨-, -, -, hOld', hNew'⟩ := create_eq_ok hRight
  have hDisk := hAlike.disk.entries name
  by_cases hHere : v.disk.get? (dir ++ [name]) = none
  · rw [hNew hHere, hNew' (hDisk.trans hHere), hAlike.readsOwn]
  · rw [hOld hHere, hOld' (hDisk ▸ hHere)]
    exact inode_of_get? (hAlike.entries name) hHere

/-- A sibling that has no other name on the one volume has none on the other. -/
theorem own (hAlike : Alike dir v w) (hSibling : temporary.EntryOf root t)
    (hEnters : v.disk.Enters root dir)
    (hOwn : ∀ x place, v.create temporary.native = .ok (x, place) → (x.inode place).shared = none)
    (y : Volume) (place : Place) (hCreate : w.create temporary.native = .ok (y, place)) :
    (y.inode place).shared = none := by
  obtain ⟨⟨e, hDisk⟩, -⟩ := create_eq_ok hCreate
  have hAgree := hAlike.disk.create hSibling hEnters
  rw [hDisk] at hAgree
  generalize hOther : v.disk.create temporary.native = other at hAgree
  cases hAgree with
  | @ok opened _ hBoth =>
    -- both disks open the entry of the directory
    obtain ⟨hLeft, hRight, -⟩ := hBoth
    obtain ⟨d, place'⟩ := opened
    obtain rfl : place' = dir ++ [.text t] := hLeft
    obtain rfl : place = dir ++ [.text t] := hRight
    have hAdmits : v.admits .creation temporary.native = true := by
      rw [← hAlike.admits]
      exact (guard_eq_ok.mp hCreate).1
    obtain ⟨x, hOpen⟩ := exists_create hAdmits hOther
    rw [hAlike.inode_of_create hOpen hCreate]
    exact hOwn x _ hOpen

theorem create (hAlike : Alike dir v w) (hSibling : temporary.EntryOf root t)
    (hEnters : v.disk.Enters root dir)
    (hOwn : ∀ x place, v.create temporary.native = .ok (x, place) →
      (x.inode place).shared = none) :
    Agree (fun a b => b.2 = a.2 ∧ OpenedBoth dir temporary root t a.1 b.1 a.2)
      (v.create temporary.native) (w.create temporary.native) := by
  refine Agree.imp ((create_agree hOwn).both (create_agree (hAlike.own hSibling hEnters hOwn))
    (hAlike.guard (hAlike.disk.create hSibling hEnters) .creation temporary.native)) ?_
  rintro ⟨a, place⟩ ⟨b, place'⟩ ⟨_, _, ⟨rfl, hLeft, hDisk⟩, ⟨rfl, hRight, hDisk'⟩, hBoth⟩
  obtain ⟨hHere, hHere', hDisks, hInto, hOpen⟩ := hBoth
  obtain rfl : place = dir ++ [.text t] := hHere
  obtain rfl : place' = dir ++ [.text t] := hHere'
  have hNonempty : dir ++ [(.text t : Name)] ≠ [] := by simp
  have hElse {q : Place} (hq : q ≠ dir ++ [.text t]) : a.get? q = v.get? q ∧ b.get? q = w.get? q :=
    ⟨get?_of_create hAlike.disk.sound.toWellFormed hNonempty hLeft hDisk hq,
      get?_of_create hAlike.disk.sound'.toWellFormed hNonempty hRight hDisk' hq⟩
  refine ⟨rfl, ⟨hAlike.of_get? hDisks ⟨(create_eq_ok hLeft).2.1, (create_eq_ok hRight).2.1⟩
    (fun name => ?_) (fun q _ hDir => hElse ?_), hInto, rfl, hOpen, hOwn a _ hLeft, ?_⟩⟩
  · by_cases hName : dir ++ [name] = dir ++ [.text t]
    · rw [hName]
      exact get?_congr (hDisks.entries (.text t)) fun _ => hAlike.inode_of_create hLeft hRight
    · rw [(hElse hName).1, (hElse hName).2, hAlike.entries]
  · rintro rfl
    exact hOpen.noDir (get?_eq_some.mp hDir).1
  · obtain ⟨⟨spot, hLocate, -⟩, -⟩ := Disk.created_of_create hDisk
    exact Disk.usable_of_locate hLocate

end Alike

theorem OpenedBoth.inode (hBoth : OpenedBoth dir temporary root t x y place) :
    y.inode place = x.inode place := by
  rw [hBoth.here]
  refine inode_of_get? (hBoth.alike.entries _) ?_
  rw [← hBoth.here]
  exact hBoth.opened.ne_none

theorem OpenedBoth.write (hBoth : OpenedBoth dir temporary root t x y place)
    (hSibling : temporary.EntryOf root t) (contents : ByteString) :
    OpenedBoth dir temporary root t (x.write place contents) (y.write place contents) place := by
  have hAlone' : (y.inode place).shared = none := by
    rw [hBoth.inode]
    exact hBoth.alone
  have hLeft : x.write place contents = _ := write_own hBoth.alone
  have hRight : y.write place contents = _ := write_own hAlone'
  have hInode := hBoth.inode
  obtain ⟨hAlike, hEnters, rfl, hOpen, hAlone, hUsable⟩ := hBoth
  have hDir := hAlike.disk.sound.enters_dir hEnters
  have hDisks := hAlike.disk.write hDir hSibling.valid contents
  have hNonempty : dir ++ [(.text t : Name)] ≠ [] := by simp
  have hElse {q : Place} (hq : q ≠ dir ++ [.text t]) :
      (x.write (dir ++ [.text t]) contents).get? q = x.get? q ∧
        (y.write (dir ++ [.text t]) contents).get? q = y.get? q :=
    ⟨get?_of_write hAlike.disk.sound.toWellFormed hNonempty hAlone hq,
      get?_of_write hAlike.disk.sound'.toWellFormed hNonempty hAlone' hq⟩
  refine ⟨hAlike.of_get? ?_ ⟨by rw [hLeft], by rw [hRight]⟩ (fun name => ?_)
    (fun q _ hWritten => hElse ?_), ?_, rfl, ?_, ?_, hUsable⟩
  · rw [hLeft, hRight]
    exact hDisks
  · by_cases hName : dir ++ [name] = dir ++ [.text t]
    · rw [hName, hLeft, hRight]
      exact get?_congr (hDisks.entries (.text t)) fun _ => hInode
    · rw [(hElse hName).1, (hElse hName).2, hAlike.entries]
  · rintro rfl
    have hDisk := (get?_eq_some.mp hWritten).1
    rw [hLeft] at hDisk
    exact (hOpen.write contents).noDir hDisk
  · rw [hLeft]
    exact hAlike.disk.enters_of_rewritten hEnters
      (.write hAlike.disk.sound hDir hSibling.valid contents)
  · rw [hLeft]
    exact hOpen.write contents
  · rw [hLeft]
    exact hAlone

theorem OpenedBoth.rename (hBoth : OpenedBoth dir temporary root t x y place)
    (hSibling : temporary.EntryOf root t) (hFile : path.EntryOf root s) (hNe : t ≠ s)
    (hSync : x.disk.sync place = .ok ()) :
    Agree (Alike dir) (x.rename temporary.native path.native)
      (y.rename temporary.native path.native) := by
  have hInode := hBoth.inode
  obtain ⟨hAlike, hEnters, rfl, hOpen, hAlone, hUsable⟩ := hBoth
  have hEnters' := hEnters.of_sameWays hAlike.disk.ways
  rcases hOpen with ⟨draft, hHere⟩ | hDevice
  · have hHere' : y.disk.get? (dir ++ [.text t]) = some (.file draft) :=
      (hAlike.disk.entries _).trans hHere
    -- what is renamed is the sibling, and it has no other name that the new one could be
    have hSource {z : Volume} (hInto : z.disk.Enters root dir)
        (hOwn : (z.inode (dir ++ [.text t])).shared = none) (source : Place)
        (hFind : z.disk.find .entry temporary.native = .ok source) :
        (z.inode source).shared = none := by
      rwa [hSibling.place_eq hInto (Disk.names_of_find hFind)]
    refine Agree.imp ((rename_agree (hSource hEnters hAlone)).both
      (rename_agree (hSource hEnters' (hInode ▸ hAlone)))
      (hAlike.guard (hAlike.guard
        (hAlike.disk.rename hSibling hFile hNe hEnters hUsable hHere) .entry _) .entry _)) ?_
    rintro a b ⟨_, _, ⟨rfl, hLeft⟩, ⟨rfl, hRight⟩, hDisks⟩
    obtain ⟨-, -, hNew, hNone, hOthers⟩ :=
      hLeft.of_file hAlike.disk.sound hSibling hFile hNe hEnters hHere
    obtain ⟨-, -, hNew', hNone', hOthers'⟩ :=
      hRight.of_file hAlike.disk.sound' hSibling hFile hNe hEnters' hHere'
    refine hAlike.of_get? hDisks ⟨hLeft.readsOwn, hRight.readsOwn⟩ (fun name => ?_)
      (fun q _ hDir => ?_)
    · by_cases hTarget : dir ++ [name] = dir ++ [.text s]
      · rw [hTarget, hNew, hNew', hAlike.entries]
      by_cases hGone : dir ++ [name] = dir ++ [.text t]
      · rw [hGone, hNone, hNone']
      · rw [hOthers _ hGone hTarget, hOthers' _ hGone hTarget, hAlike.entries]
    · -- a directory is neither of the two names
      have hGone : q ≠ dir ++ [.text t] := by
        rintro rfl
        cases hNone.symm.trans hDir
      have hTarget : q ≠ dir ++ [.text s] := by
        rintro rfl
        cases hHere.symm.trans (get?_eq_some.mp (hNew.symm.trans hDir)).1
      exact ⟨hOthers q hGone hTarget, hOthers' q hGone hTarget⟩
  · exact absurd hDevice (Disk.no_device_of_sync hSync)

theorem Alike.remove (hAlike : Alike dir v w) (hSibling : temporary.EntryOf root t)
    (hEnters : v.disk.Enters root dir) :
    Agree (Alike dir) (v.remove temporary.native) (w.remove temporary.native) := by
  refine Agree.imp ((v.remove_agree temporary.native).both (w.remove_agree temporary.native)
    (hAlike.guard (hAlike.disk.remove hSibling hEnters) .entry temporary.native)) ?_
  rintro a b ⟨_, _, ⟨rfl, hLeft⟩, ⟨rfl, hRight⟩, hDisks⟩
  obtain ⟨place, hNames, -, hNone, hOthers⟩ := hLeft.get? hAlike.disk.sound hSibling
  obtain ⟨place', hNames', -, hNone', hOthers'⟩ := hRight.get? hAlike.disk.sound' hSibling
  obtain rfl := hSibling.place_eq hEnters hNames
  obtain rfl := hSibling.place_eq (hEnters.of_sameWays hAlike.disk.ways) hNames'
  refine hAlike.of_get? hDisks ⟨hLeft.readsOwn, hRight.readsOwn⟩ (fun name => ?_)
    (fun q _ hDir => ?_)
  · by_cases hGone : dir ++ [name] = dir ++ [.text t]
    · rw [hGone, hNone, hNone']
    · rw [hOthers _ hGone, hOthers' _ hGone, hAlike.entries]
  · have hGone : q ≠ dir ++ [.text t] := by
      rintro rfl
      cases hNone.symm.trans hDir
    exact ⟨hOthers q hGone, hOthers' q hGone⟩

/-- **Two volumes that are alike**, while a file is replaced by way of a sibling of one name. -/
def besideAlike (h : Hazard) (dir : Place) (hSibling : temporary.EntryOf root t)
    (hFile : path.EntryOf root s) (hNe : t ≠ s) :
    SideBySide Volume Volume h h temporary path where
  begun x y := Alike dir x y ∧ x.disk.Enters root dir ∧
    ∀ w place, x.create temporary.native = .ok (w, place) → (w.inode place).shared = none
  opened x y place := OpenedBoth dir temporary root t x y place
  abandoned x y := Alike dir x y ∧ x.disk.Enters root dir
  failed x y := Alike dir x y
  replaced x y := Alike dir x y
  writes := h.writes_self
  create := by
    rintro x y ⟨hAlike, hEnters, hOwn⟩
    exact (hAlike.create hSibling hEnters hOwn).guard h .create
  write := fun contents hBoth => hBoth.write hSibling contents
  sync := by
    intro x y place hBoth
    have hSame : y.disk.get? place = x.disk.get? place := by
      rw [hBoth.here, hBoth.alike.disk.entries]
    rw [fileSystem_sync, fileSystem_sync, Disk.sync, Disk.sync, hSame]
  rename := fun hBoth hSync => (hBoth.rename hSibling hFile hNe hSync).guard h .rename
  remove := by
    rintro x y ⟨hAlike, hEnters⟩
    exact (hAlike.remove hSibling hEnters).guard h .remove
  uncreated := fun hBegun => ⟨hBegun.1, hBegun.2.1⟩
  closed := fun hBoth => ⟨hBoth.alike, hBoth.enters⟩
  unremoved := fun hLeft => hLeft.1

end Volume

/-! ## Bumps -/

section Bumps

variable {d e : Disk} {v w : Volume} {dir : Place} {root : Path} {name : String}

/-- A root that leads to a directory is found there, on both. -/
theorem Disk.Alike.find_root (hAlike : d.Alike dir e) (hEnters : d.Enters root dir) :
    e.find .target root.native = d.find .target root.native ∧
      ∀ place, d.find .target root.native = .ok place → place = dir := by
  by_cases hTaken : root.Usable ∧ root.spelling ≠ ""
  · obtain ⟨hFind, -⟩ := (hAlike.sound.enters_iff hTaken.1 hTaken.2).mp hEnters
    obtain ⟨hFind', -⟩ := (hAlike.sound'.enters_iff hTaken.1 hTaken.2).mp
      (hEnters.of_sameWays hAlike.ways)
    refine ⟨hFind'.trans hFind.symm, fun place hPlace => ?_⟩
    rw [hFind] at hPlace
    exact (Except.ok.inj hPlace).symm
  · refine ⟨?_, fun place hPlace => ?_⟩
    · unfold Disk.find
      rw [Disk.locate_refused hTaken d e]
    · have hLocate := Disk.find_eq_ok.mp hPlace
      exact absurd ⟨Disk.usable_of_locate hLocate, Disk.nonempty_of_locate hLocate⟩ hTaken

theorem Disk.Alike.list_eq (hAlike : d.Alike dir e) (hListing : e.children dir = d.children dir)
    (hEnters : d.Enters root dir) : e.list root = d.list root := by
  obtain ⟨hFind, hHere⟩ := hAlike.find_root hEnters
  have hDir := hAlike.sound.enters_dir hEnters
  unfold Disk.list
  rw [hFind]
  cases hPlace : d.find .target root.native with
  | error fault => rfl
  | ok place =>
    obtain rfl := hHere place hPlace
    simp only [bind, Except.bind, hDir, (hAlike.ways.dir_iff place).mpr hDir, hListing]

/-- An entry that is found stands in the directory of the root. -/
theorem Disk.Alike.find_entry {path : Path} (hAlike : d.Alike dir e)
    (hFile : path.EntryOf root name) (hEnters : d.Enters root dir) {place : Place}
    (hFind : d.find .target path.native = .ok place) :
    place = dir ++ [.text name] ∧ d.get? (dir ++ [.text name]) ≠ none := by
  have hLocate := Disk.find_eq_ok.mp hFind
  rw [hFile.locate hEnters (Disk.usable_of_locate hLocate) (Or.inr (hAlike.noLink _)),
    Disk.leaf] at hLocate
  split at hLocate
  · next hHere =>
    cases hLocate
    exact ⟨rfl, fun hNone => by simp [hNone] at hHere⟩
  · cases hLocate

theorem Disk.Alike.readText_eq {path : Path} (hAlike : d.Alike dir e)
    (hFile : path.EntryOf root name) (hEnters : d.Enters root dir) :
    e.readText path = d.readText path := by
  unfold Disk.readText Disk.stat
  rw [hAlike.find_eq hFile hEnters]
  cases hFind : d.find .target path.native with
  | error fault => rfl
  | ok place =>
    simp only [bind, Except.bind]
    rw [(hAlike.find_entry hFile hEnters hFind).1, hAlike.entries]

namespace Volume.Alike

theorem list_eq (hAlike : Alike dir v w)
    (hListing : w.disk.children dir = v.disk.children dir) (hEnters : v.disk.Enters root dir) :
    w.list root = v.list root := by
  obtain ⟨hFind, hHere⟩ := hAlike.disk.find_root hEnters
  unfold Volume.list Volume.guard
  rw [hAlike.admits, hFind, hAlike.disk.list_eq hListing hEnters]
  cases hPlace : v.disk.find .target root.native with
  | error fault => rfl
  | ok place =>
    obtain rfl := hHere place hPlace
    simp only [bind, Except.bind, hAlike.dirs _ (hAlike.disk.sound.enters_dir hEnters)]

theorem readText_eq {path : Path} (hAlike : Alike dir v w) (hFile : path.EntryOf root name)
    (hEnters : v.disk.Enters root dir) : w.readText path = v.readText path := by
  unfold Volume.readText Volume.guard
  rw [hAlike.admits, hAlike.disk.find_eq hFile hEnters, hAlike.disk.readText_eq hFile hEnters]
  cases hFind : v.disk.find .target path.native with
  | error fault => rfl
  | ok place =>
    obtain ⟨rfl, hHere⟩ := hAlike.disk.find_entry hFile hEnters hFind
    simp only [bind, Except.bind, inode_of_get? (hAlike.entries _) hHere]

/-- What is listed the same has its counter under the same name. -/
theorem counterPath_eq (hAlike : Alike dir v w)
    (hListing : w.disk.children dir = v.disk.children dir) (hEnters : v.disk.Enters root dir) :
    counterPath w root = counterPath v root := by
  unfold counterPath
  rw [fileSystem_list, fileSystem_list, hAlike.list_eq hListing hEnters]

/-- **A bump** goes the same way on volumes that are alike in the directory of the root. -/
theorem bump (h : Hazard) (hAlike : Alike dir v w)
    (hListing : w.disk.children dir = v.disk.children dir) (hEnters : v.disk.Enters root dir)
    (hOwn : v.OwnSibling root) :
    (TreeWatch.bump h w root).result = (TreeWatch.bump h v root).result ∧
      Alike dir (TreeWatch.bump h v root).disk (TreeWatch.bump h w root).disk := by
  obtain ⟨name, hFile, hSibling⟩ := entries_of_bump v root
  have hPath := hAlike.counterPath_eq hListing hEnters
  have hStart : startingFile w (counterPath w root) = startingFile v (counterPath v root) := by
    unfold startingFile loadCounter
    rw [hPath, fileSystem_readText, fileSystem_readText, hAlike.readText_eq hFile hEnters]
  have hVersion : bumpedVersion w root = bumpedVersion v root := by
    unfold bumpedVersion
    dsimp only
    rw [hStart, hPath]
  -- the same is read on both, so what is left is to write the same on both
  have hEnded := (besideAlike h dir hSibling hFile (temporaryName_ne name)).replaceFile
    (bumpedText v root) ⟨hAlike, hEnters, fun x place hCreate => (hOwn x place hCreate).2⟩
  obtain ⟨hDisk, hResult⟩ := bump_eq h v root
  obtain ⟨hDisk', hResult'⟩ := bump_eq h w root
  rw [hDisk, hDisk', hResult, hResult', hPath, hVersion]
  unfold bumpReplaced siblingPath bumpedText
  rw [hStart, hVersion, hPath]
  unfold siblingPath bumpedText at hEnded
  generalize replaceFile h v _ _ _ = left at hEnded ⊢
  generalize replaceFile h w _ _ _ = right at hEnded ⊢
  cases hEnded with
  | replaced hReplaced => exact ⟨rfl, hReplaced⟩
  | failed fault left hFailed => exact ⟨rfl, hFailed⟩

end Volume.Alike

end Bumps

end TreeWatch
