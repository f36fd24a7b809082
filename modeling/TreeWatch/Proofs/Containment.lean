import TreeWatch.Proofs.Footprints
import TreeWatch.Proofs.Volumes

/-!
# What a bump touches

A bump changes the counter and its sibling, and nothing else, if what it opens under the path of the
sibling is the sibling and has no other name. Otherwise it writes through: the sibling is opened
like any other file, so through a link if one stands there, and what is written to a file shows
under all of its names. A link that was written through becomes the counter; so does a sibling that
nobody may read.

Main results:
  * `Volume.bump_ended`: how a bump on a volume ends
  * `bump_stays_inside`: only the counter and its sibling change, and the counter can be read again
  * `sibling_is_written_through`: what happens with other siblings
-/

namespace TreeWatch

/-- Without the counter all paths lead where they lead in the end. -/
theorem Swapped.sameWays {temporary path root : Path} {s contents : String} {d e : Disk}
    {place : Place} (hSwapped : Swapped temporary path contents d e) (hSound : d.Sound)
    (hFile : path.EntryOf root s) (hNames : d.Names path place) :
    (d.erase place).SameWays e := by
  obtain ⟨hHome, ⟨here, hHere, -, hNew⟩, ⟨other, hOther, hBlocked, hNone⟩, hElse⟩ := hSwapped
  obtain rfl := hHere.unique hNames
  have hErase {q : Place} := Disk.get?_erase (q := q) hSound.toWellFormed (hFile.ne_nil hNames)
  refine ⟨hHome, fun q => ?_⟩
  -- only the two names may differ, and neither leads any further on either side
  by_cases hCounter : q = here
  · refine Or.inr ⟨?_, ?_⟩
    · rw [hCounter]
      exact ⟨by simp [hErase], by simp [hErase]⟩
    · rw [hCounter]
      exact ⟨by simp [hNew], by simp [hNew]⟩
  by_cases hSibling : q = other
  · refine Or.inr ⟨?_, ?_⟩
    · rw [hSibling] at hCounter ⊢
      exact ⟨by simpa [hErase, hCounter] using hBlocked.noDir,
        by simpa [hErase, hCounter] using hBlocked.noLink⟩
    · rw [hSibling]
      exact ⟨by simp [hNone], by simp [hNone]⟩
  · rw [hErase, if_neg hCounter]
    exact Or.inl (hElse q (fun hPath => hCounter (hPath.unique hNames))
      fun hPath => hSibling (hPath.unique hOther))

namespace Volume

variable {v u : Volume} {root path : Path} {s : String} {place : Place}

/-- What a bump opens under the path of the sibling is the sibling, and has no other name. -/
def OwnSibling (v : Volume) (root : Path) : Prop :=
  ∀ w place, v.create (siblingPath v root).native = .ok (w, place) →
    v.disk.Names (siblingPath v root) place ∧ (w.inode place).shared = none

/-- Nothing is opened in a root that leads to no directory. -/
theorem OwnSibling.of_stray (hStray : ∀ dir, ¬ v.disk.Enters root dir) : v.OwnSibling root := by
  intro w place hCreate
  obtain ⟨name, -, hSibling⟩ := entries_of_bump v root
  obtain ⟨⟨d, hDisk⟩, -⟩ := create_eq_ok hCreate
  exact absurd hDisk ((hSibling.refused hStray).1 _)

/-- So it does if neither a link stands there nor a file with another name. -/
theorem OwnSibling.of_get? {dir : Place} {name : String} (hName : isCounterName name = true)
    (hCounter : counterPath v root = root.join ⟨name⟩) (hEnters : v.disk.Enters root dir)
    (hHere : ∀ e inode, v.get? (dir ++ [.text (name ++ temporarySuffix)]) = some (e, inode) →
      (∀ target, e ≠ .link target) ∧ inode.shared = none) : v.OwnSibling root := by
  intro w place hCreate
  obtain ⟨-, hSibling⟩ := entries_of_counterPath hName hCounter
  obtain ⟨⟨d, hDisk⟩, -, -, hOld, hNew⟩ := create_eq_ok hCreate
  have hNames : v.disk.Names (siblingPath v root) place := by
    refine hSibling.opens_entry (fun found hFound target hLink => ?_) hDisk
    obtain rfl := hFound.unique hEnters
    exact (hHere (.link target) _ (get?_eq_some.mpr ⟨hLink, rfl⟩)).1 target rfl
  refine ⟨hNames, ?_⟩
  obtain ⟨-, found, hFound, rfl⟩ := hSibling.names.mp hNames
  obtain rfl := hFound.unique hEnters
  cases hEntry : v.disk.get? (found ++ [.text (name ++ temporarySuffix)]) with
  | none => rw [hNew hEntry]
  | some e =>
    rw [hOld (by simp [hEntry])]
    exact (hHere e _ (get?_eq_some.mpr ⟨hEntry, rfl⟩)).2

/-- Then it is the sibling that is opened on the disk. -/
theorem OwnSibling.names (hOwn : v.OwnSibling root) {h : Hazard} {path : Path} {d : Disk}
    (hCreate : (v.hazard h (siblingPath v root) path).guard .create
      (v.disk.create (siblingPath v root).native) = .ok (d, place)) :
    v.disk.Names (siblingPath v root) place := by
  rw [hazard_guard] at hCreate
  obtain ⟨hAdmits, hDisk⟩ := guard_eq_ok.mp (Hazard.action_of_guard hCreate)
  obtain ⟨w, hOpen⟩ := exists_create hAdmits hDisk
  exact (hOwn w place hOpen).1

/-- **How a bump on a volume ends**: its disk is where the steps of the replacement lead, and what
is kept about the entries has gone with them. -/
theorem bump_ended (h : Hazard) (hSound : v.disk.Sound) (hOwn : v.OwnSibling root) :
    ∃ result left,
      Reaches (v.hazard h (siblingPath v root) (counterPath v root)) (siblingPath v root)
        (counterPath v root) (bumpedText v root) (v.disk, .begun)
        ((bump h v root).disk.disk, .over result left) ∧
      (bump h v root).result = (result.mapError (.access (counterPath v root))).map
        (fun () => bumpedVersion v root) ∧
      (∀ fault, result = .error fault →
        v.Kept (v.disk.Names (siblingPath v root)) (bump h v root).disk) ∧
      (result = .ok () →
        v.Swapped (siblingPath v root) (counterPath v root) (bump h v root).disk) := by
  obtain ⟨name, hFile, hSibling⟩ := entries_of_bump v root
  have hEnded := (v.beside h hSound hSibling hFile (temporaryName_ne name) hOwn).replaceFile
    (bumpedText v root) ⟨rfl, rfl⟩
  obtain ⟨hDisk, hResult⟩ := bump_eq h v root
  rw [hDisk, hResult]
  unfold bumpReplaced
  generalize hReplaced : replaceFile h v (siblingPath v root) (counterPath v root)
    (bumpedText v root) = replaced at hEnded ⊢
  generalize hBeside : replaceFile (v.hazard h (siblingPath v root) (counterPath v root)) v.disk
    (siblingPath v root) (counterPath v root) (bumpedText v root) = beside at hEnded
  cases hEnded with
  | @replaced x y hSwapped =>
    obtain ⟨rfl, hSwapped⟩ := hSwapped
    exact ⟨.ok (), none, reaches_over_iff.mpr hBeside, rfl, fun _ hFault => (by cases hFault),
      fun _ => hSwapped⟩
  | @failed x y fault left hFailed =>
    obtain ⟨rfl, hKept⟩ := hFailed
    exact ⟨.error fault, left, reaches_over_iff.mpr hBeside, rfl, fun _ _ => hKept,
      fun hOk => (by cases hOk)⟩

/-- Nothing but the counter and its sibling is changed, and no directory. -/
theorem bump_kept (h : Hazard) (hSound : v.disk.Sound) (hOwn : v.OwnSibling root) :
    v.Kept (fun q => v.disk.Names (siblingPath v root) q ∨ v.disk.Names (counterPath v root) q)
      (bump h v root).disk := by
  obtain ⟨result, left, -, -, hFailed, hReplaced⟩ := bump_ended h hSound hOwn
  cases result with
  | error fault => exact (hFailed fault rfl).mono fun q => Or.inl
  | ok done => exact (hReplaced rfl).kept

/-- If the way to the file does not go through the file itself, it may still be followed. -/
theorem Swapped.admits_target {temporary : Path} (hSwapped : v.Swapped temporary path u)
    (hSound : v.disk.Sound) (hFile : path.EntryOf root s) (hNames : v.disk.Names path place)
    (hNoDir : v.disk.get? place ≠ some .dir) (hAway : (v.disk.erase place).Names path place)
    (hWays : (v.disk.erase place).SameWays u.disk) : u.admits .target path.native = true := by
  have hTree := hSound.toWellFormed
  have hPlace := hFile.ne_nil hNames
  have hFree : (v.disk.erase place).get? place = none := by
    rw [Disk.get?_erase hTree hPlace, if_pos rfl]
  have hLocate : ∃ dir, (v.disk.erase place).locate .entry path.native =
      .ok (.vacant dir (.text s)) := by
    obtain ⟨hUsable, dir, hEnters, rfl⟩ := hFile.names.mp hAway
    refine ⟨dir, ?_⟩
    rw [hFile.locate hEnters hUsable (Or.inl rfl), Disk.leaf, hFree]
    rfl
  obtain ⟨dir, hLocate⟩ := hLocate
  have hDirs (q : Place) (hDir : (v.disk.erase place).get? q = some .dir) :
      u.inode q = v.inode q :=
    hSwapped.kept.dir ((Disk.dir_erase_iff hTree hPlace hNoDir q).mp hDir)
  rw [admits_eq (v := { v with disk := v.disk.erase place }) (hSound.erase hPlace hNoDir) hWays
    hDirs]
  -- the names are looked up where the renaming looked them up
  have hOld := List.all_eq_true.mp hSwapped.admits
  refine List.all_eq_true.mpr fun q hq => hOld q ?_
  rw [Disk.searchedFor_target hLocate] at hq
  exact Disk.searchedFor_of_erase hTree hPlace hNoDir hq

end Volume

/-- A bump on a volume **stays inside its two files** if what it opens under the path of the sibling
is the sibling and has no other name: no other place is changed, whether it succeeds or fails, be it
in what stands there or in what is kept about it. After a success the counter can be read, if the
process may read the sibling that it opened, and if the way to the counter does not go through the
counter itself: what is read is the new contents.
-/
theorem bump_stays_inside (h : Hazard) (v : Volume) (root : Path) (hSound : v.disk.Sound)
    (hOwn : v.OwnSibling root) :
    (∀ place, ¬ v.disk.Names (counterPath v root) place →
      ¬ v.disk.Names (siblingPath v root) place → (bump h v root).disk.get? place = v.get? place) ∧
    ∀ n, (bump h v root).result = .ok n →
      (∀ w place, v.create (siblingPath v root).native = .ok (w, place) →
        (w.inode place).readable = true) →
      (∀ place, v.disk.Names (counterPath v root) place →
        (v.disk.erase place).Names (counterPath v root) place) →
      (bump h v root).disk.readText (counterPath v root) = .ok (bumpedText v root) := by
  obtain ⟨name, hFile, hSibling⟩ := entries_of_bump v root
  have hNe := temporaryName_ne name
  obtain ⟨result, left, run, hResult, -, hReplaced⟩ := Volume.bump_ended h hSound hOwn
  have hEnd := Reaches.reached hSound hSibling hFile hNe (fun d place => hOwn.names) run
  refine ⟨fun place hCounter hTemporary => ?_, fun n hOk hReadable hAway => ?_⟩
  · exact (Volume.bump_kept h hSound hOwn).places place fun hNames =>
      (hNames.elim hTemporary hCounter).elim
  rw [hResult] at hOk
  cases result with
  | error fault => cases hOk
  | ok done =>
    have hSwapped := hReplaced rfl
    have hDisk : Swapped _ _ _ _ _ := hEnd
    obtain ⟨place, hNames, hNoDir, hNew⟩ := hDisk.file
    have hWays := hDisk.sameWays hSound hFile hNames
    have hAdmits := hSwapped.admits_target hSound hFile hNames hNoDir (hAway place hNames) hWays
    obtain ⟨w, opened, hCreate, hInode⟩ := hSwapped.inode
    -- the counter is the sibling that was opened, so it may be read like it
    have hRead : ((bump h v root).disk.inode place).readable = true := by
      obtain ⟨e, hHere⟩ := hInode place hNames
      rw [(Volume.get?_eq_some.mp hHere).2]
      exact hReadable w opened hCreate
    -- and the way to it is still there, as it does not go through what was replaced
    obtain ⟨hUsable, dir, hEnters, rfl⟩ := hFile.names.mp (hAway place hNames)
    have hFind : (bump h v root).disk.disk.find .target (counterPath v root).native = .ok _ :=
      hFile.find (hEnters.of_sameWays hWays) hUsable (Or.inr (by simp [hNew])) hNew
    refine Volume.guard_eq_ok.mpr ⟨hAdmits, ?_⟩
    simp only [hFind, bind, Except.bind, hRead, if_true]
    unfold Disk.readText Disk.stat
    simp only [hFind, bind, Except.bind, hNew]
    rfl

/-- A root whose counter has another name elsewhere. -/
def backedUp : Volume where
  disk := { entries := ([.text "backup"], counterAtFour.2) :: orderly.entries, home := [] }
  inode place :=
    if place = [.text "backup"] ∨ place = [.text "r", .text "gpt.ini"] then { shared := some 1 }
    else {}

/-- The counter comes back with the next number, and the old one is there under its other name. -/
theorem bumped_counter_is_read :
    (bump .none backedUp ⟨"r"⟩).disk.readText ⟨"r/gpt.ini"⟩ = .ok "[General]\nVersion=5\n" ∧
      (bump .none backedUp ⟨"r"⟩).disk.get? [.text "backup"] =
        some (counterAtFour.2, { shared := some 1 }) := by
  have hCounter : counterPath backedUp ⟨"r"⟩ = Path.join ⟨"r"⟩ ⟨counterFileName⟩ := by
    decide +kernel
  have hText : bumpedText backedUp ⟨"r"⟩ = "[General]\nVersion=5\n" := by decide +kernel
  have hEnters : backedUp.disk.Enters ⟨"r"⟩ [.text "r"] := ⟨Disk.maxLinks, by decide +kernel⟩
  have hNone : backedUp.get? [.text "r", .text (counterFileName ++ temporarySuffix)] = none := by
    decide +kernel
  have hNames : backedUp.disk.Names (counterPath backedUp ⟨"r"⟩) [.text "r", .text "gpt.ini"] := by
    decide +kernel
  obtain ⟨hKept, hRead⟩ := bump_stays_inside .none backedUp ⟨"r"⟩ (by decide) <|
    .of_get? isCounterName_counterFileName hCounter hEnters fun e inode hHere =>
      absurd (hNone.symm.trans hHere) (by simp)
  constructor
  · rw [show (⟨"r/gpt.ini"⟩ : Path) = counterPath backedUp ⟨"r"⟩ by decide +kernel, ← hText]
    refine hRead 5 (by decide +kernel) (fun w place hCreate => ?_) fun place hPlace => ?_
    · obtain ⟨-, -, -, hOld, hNew⟩ := Volume.create_eq_ok hCreate
      have hReadable : (backedUp.inode place).readable = true := by
        unfold backedUp
        dsimp only
        split <;> rfl
      by_cases hHere : backedUp.disk.get? place = none
      · rw [hNew hHere]
        rfl
      · rw [hOld hHere, hReadable]
    · rw [hPlace.unique hNames]
      decide +kernel
  · rw [hKept _ (by decide +kernel) (by decide +kernel)]
    decide +kernel

/-- A root in which somebody has left a link under the name of the sibling. -/
def baited : Volume where
  disk := rootHolding [(.text "gpt.ini.tmp", .link (.text "../victim"))]

/-- One in which that link leads to the counter. -/
def looped : Volume where
  disk := rootHolding [counterAtFour, (.text "gpt.ini.tmp", .link (.text "gpt.ini"))]

/-- One in which a file has the name of the sibling besides its own. -/
def hardLinked : Volume where
  disk := rootHolding [(.text "gpt.ini.tmp", .file (.text "precious"))]
  inode place :=
    if place = [.text "victim"] ∨ place = [.text "r", .text "gpt.ini.tmp"] then { shared := some 1 }
    else {}

/-- One in which a file that nobody may read has that name. -/
def sealed : Volume where
  disk := rootHolding [(.text "gpt.ini.tmp", .file default)]
  inode place := if place = [.text "r", .text "gpt.ini.tmp"] then { readable := false } else {}

/-- **What stands under the name of the sibling is written through**: the file that a link leads to
is lost, and so is one that has this name besides its own. If a link leads to the counter, the
counter becomes a link to itself that nobody can read. Nor can it be read if the sibling could
not. -/
theorem sibling_is_written_through :
    ((bump .none baited ⟨"r"⟩).result = .ok 1 ∧
      ¬ baited.disk.Names (counterPath baited ⟨"r"⟩) [.text "victim"] ∧
      ¬ baited.disk.Names (siblingPath baited ⟨"r"⟩) [.text "victim"] ∧
      baited.disk.get? [.text "victim"] = some (.file (.text "precious")) ∧
      (bump .none baited ⟨"r"⟩).disk.disk.get? [.text "victim"] =
        some (.file (.text "[General]\nVersion=1\n"))) ∧
    ((bump .none looped ⟨"r"⟩).result = .ok 5 ∧
      (bump .none looped ⟨"r"⟩).disk.readText (counterPath looped ⟨"r"⟩) = .error .linkLoop) ∧
    ((bump .none hardLinked ⟨"r"⟩).result = .ok 1 ∧
      ¬ hardLinked.disk.Names (counterPath hardLinked ⟨"r"⟩) [.text "victim"] ∧
      ¬ hardLinked.disk.Names (siblingPath hardLinked ⟨"r"⟩) [.text "victim"] ∧
      hardLinked.disk.get? [.text "victim"] = some (.file (.text "precious")) ∧
      (bump .none hardLinked ⟨"r"⟩).disk.disk.get? [.text "victim"] =
        some (.file (.text "[General]\nVersion=1\n"))) ∧
    (bump .none sealed ⟨"r"⟩).result = .ok 1 ∧
      (bump .none sealed ⟨"r"⟩).disk.readText (counterPath sealed ⟨"r"⟩) = .error .denied := by
  decide +kernel

end TreeWatch
