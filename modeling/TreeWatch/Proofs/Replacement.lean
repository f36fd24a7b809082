import Mathlib.Logic.Relation
import TreeWatch.Proofs.CounterNames
import TreeWatch.Proofs.Lookups

/-!
# Replacing a file step by step

`replaceFile` makes its primitive steps in one go. Whoever cuts it off sees the disk in between:
after any step, and with any part of the contents written. Here the steps are moves of their own
(`ReplaceStep`) between the stages of a replacement, and `replaceFile` is where they end
(`reaches_over_iff`). What has been done to the disk at each stage is said once
(`Replacing.Reached`), and each step keeps it.

Main results:
  * `reaches_over_iff`: the steps end where `replaceFile` does
  * `Replacing.Reached.step`, `Reaches.reached`: what has been done at each stage
  * `Replacing.Reached.old_or_new`: the path names the old file or the new one
-/

namespace TreeWatch

/-! ## Stages and steps -/

/-- How far a replacement has come. -/
inductive Replacing where
  | begun
  /-- The sibling is open at a place, and so many bytes have been written to it. -/
  | writing (place : Place) (count : Nat)
  | written (place : Place)
  | synced
  /-- A step failed, and the sibling is to be removed. -/
  | abandoning (fault : Fault)
  | over (result : Except Fault Unit) (left : Option Fault)

/-- The primitive steps of a replacement; writing takes as many of them as it likes. -/
inductive ReplaceStep (h : Hazard) (temporary path : Path) (contents : String) :
    Disk × Replacing → Disk × Replacing → Prop where
  | created {d d' : Disk} {place : Place}
      (hCreate : h.guard .create (d.create temporary.native) = .ok (d', place)) :
      ReplaceStep h temporary path contents (d, .begun) (d', .writing place 0)
  | uncreated {d : Disk} {fault : Fault}
      (hCreate : h.guard .create (d.create temporary.native) = .error fault) :
      ReplaceStep h temporary path contents (d, .begun) (d, .abandoning fault)
  /-- More bytes get onto the disk; before a fault as many as the hazard says. -/
  | wrote {d : Disk} {place : Place} {count more : Nat} (hMore : count < more)
      (hRoom : h.fails .write ≠ none → more ≤ h.written) :
      ReplaceStep h temporary path contents (d, .writing place count)
        (d.write place (.take more (.text contents)), .writing place more)
  | unwritten {d : Disk} {place : Place} {count : Nat} {fault : Fault}
      (hWrite : h.fails .write = some fault) :
      ReplaceStep h temporary path contents (d, .writing place count)
        (d.write place (.take h.written (.text contents)), .abandoning fault)
  | completed {d : Disk} {place : Place} {count : Nat} (hWrite : h.fails .write = none) :
      ReplaceStep h temporary path contents (d, .writing place count)
        (d.write place (.text contents), .written place)
  | synced {d : Disk} {place : Place} (hSync : h.guard .sync (d.sync place) = .ok ()) :
      ReplaceStep h temporary path contents (d, .written place) (d, .synced)
  | unsynced {d : Disk} {place : Place} {fault : Fault}
      (hSync : h.guard .sync (d.sync place) = .error fault) :
      ReplaceStep h temporary path contents (d, .written place) (d, .abandoning fault)
  | renamed {d d' : Disk}
      (hRename : h.guard .rename (d.rename temporary.native path.native) = .ok d') :
      ReplaceStep h temporary path contents (d, .synced) (d', .over (.ok ()) none)
  | unrenamed {d : Disk} {fault : Fault}
      (hRename : h.guard .rename (d.rename temporary.native path.native) = .error fault) :
      ReplaceStep h temporary path contents (d, .synced) (d, .abandoning fault)
  | removed {d d' : Disk} {fault : Fault}
      (hRemove : h.guard .remove (d.remove temporary.native) = .ok d') :
      ReplaceStep h temporary path contents (d, .abandoning fault) (d', .over (.error fault) none)
  | unremoved {d : Disk} {fault left : Fault}
      (hRemove : h.guard .remove (d.remove temporary.native) = .error left) :
      ReplaceStep h temporary path contents (d, .abandoning fault)
        (d, .over (.error fault) (if left = .notFound then none else some left))

/-- The moments at which a replacement can be cut off. -/
abbrev Reaches (h : Hazard) (temporary path : Path) (contents : String) :
    Disk × Replacing → Disk × Replacing → Prop :=
  Relation.ReflTransGen (ReplaceStep h temporary path contents)

/-! ## Where the steps end -/

section Outcome

variable {h : Hazard} {temporary path : Path} {contents : String} {d d' : Disk}
  {stage stage' : Replacing} {place : Place}

section

variable {σ : Type} [FileSystem σ]

/-- What is left to do with the sibling on the disk. -/
def finishRename (h : Hazard) (temporary path : Path) (d : σ) : Replaced σ :=
  match h.guard .rename (FileSystem.rename d temporary.native path.native) with
  | .error fault => abandonReplace h d temporary fault
  | .ok d => ⟨d, .ok (), none⟩

/-- What is left to do with the sibling written. -/
def finishSync (h : Hazard) (temporary path : Path) (d : σ) (place : Place) : Replaced σ :=
  match h.guard .sync (FileSystem.sync d place) with
  | .error fault => abandonReplace h d temporary fault
  | .ok () => finishRename h temporary path d

/-- What is left to do with the sibling open. -/
def finishWrite (h : Hazard) (temporary path : Path) (contents : String) (d : σ)
    (place : Place) : Replaced σ :=
  match h.fails .write with
  | some fault =>
    abandonReplace h (FileSystem.write d place (.take h.written (.text contents))) temporary fault
  | .none => finishSync h temporary path (FileSystem.write d place (.text contents)) place

theorem replaceFile_eq (h : Hazard) (d : σ) (temporary path : Path) (contents : String) :
    replaceFile h d temporary path contents =
      match h.guard .create (FileSystem.create d temporary.native) with
      | .error fault => abandonReplace h d temporary fault
      | .ok (d, place) => finishWrite h temporary path contents d place :=
  rfl

end

/-- Where a replacement ends from a stage on. -/
def Replacing.outcome (h : Hazard) (temporary path : Path) (contents : String) (d : Disk) :
    Replacing → Replaced Disk
  | .begun => replaceFile h d temporary path contents
  | .writing place _ => finishWrite h temporary path contents d place
  | .written place => finishSync h temporary path d place
  | .synced => finishRename h temporary path d
  | .abandoning fault => abandonReplace h d temporary fault
  | .over result left => ⟨d, result, left⟩

/-- Only what is written last matters. -/
theorem Disk.write_write (d : Disk) (place : Place) (draft contents : ByteString) :
    (d.write place draft).write place contents = d.write place contents := by
  cases hHere : d.get? place with
  | none => simp only [Disk.write, hHere]
  | some e =>
    cases e with
    | file old =>
      have hPlace : place ≠ [] := by rintro rfl; cases hHere
      have hDraft : (d.set place (.file draft)).get? place = some (.file draft) :=
        Disk.get?_set_here d hPlace _
      simp only [Disk.write, hHere, hDraft, Disk.set_set]
    | dir | link target | socket | device => simp only [Disk.write, hHere]

/-- A step leads nowhere else than to the end. -/
theorem ReplaceStep.outcome
    (hStep : ReplaceStep h temporary path contents (d, stage) (d', stage')) :
    stage'.outcome h temporary path contents d' = stage.outcome h temporary path contents d := by
  cases hStep with
  | created hCreate =>
    show finishWrite h temporary path contents d' _ = replaceFile h d temporary path contents
    rw [replaceFile_eq, Disk.fileSystem_create, hCreate]
  | uncreated hCreate =>
    show abandonReplace h d temporary _ = replaceFile h d temporary path contents
    rw [replaceFile_eq, Disk.fileSystem_create, hCreate]
  | wrote hMore hRoom =>
    show finishWrite h temporary path contents (d.write _ _) _ =
      finishWrite h temporary path contents d _
    unfold finishWrite
    simp only [Disk.fileSystem_write, Disk.write_write]
  | unwritten hWrite =>
    show abandonReplace h _ temporary _ = finishWrite h temporary path contents d _
    rw [finishWrite, hWrite]
    rfl
  | completed hWrite =>
    show finishSync h temporary path _ _ = finishWrite h temporary path contents d _
    rw [finishWrite, hWrite]
    rfl
  | synced hSync =>
    show finishRename h temporary path d = finishSync h temporary path d _
    rw [finishSync, Disk.fileSystem_sync, hSync]
  | unsynced hSync =>
    show abandonReplace h d temporary _ = finishSync h temporary path d _
    rw [finishSync, Disk.fileSystem_sync, hSync]
  | renamed hRename =>
    show _ = finishRename h temporary path d
    rw [finishRename, Disk.fileSystem_rename, hRename]
    rfl
  | unrenamed hRename =>
    show abandonReplace h d temporary _ = finishRename h temporary path d
    rw [finishRename, Disk.fileSystem_rename, hRename]
  | removed hRemove =>
    show _ = abandonReplace h d temporary _
    rw [abandonReplace, Disk.fileSystem_remove, hRemove]
    rfl
  | unremoved hRemove =>
    show _ = abandonReplace h d temporary _
    rw [abandonReplace, Disk.fileSystem_remove, hRemove]
    rfl

/-- A run leads nowhere else than to the end. -/
theorem Reaches.outcome (run : Reaches h temporary path contents (d, stage) (d', stage')) :
    stage'.outcome h temporary path contents d' = stage.outcome h temporary path contents d := by
  -- no step changes where the replacement ends
  generalize hFirst : (d, stage) = first at run
  generalize hLast : (d', stage') = last at run
  induction run generalizing d' stage' with
  | refl => cases hFirst.trans hLast.symm; rfl
  | @tail middle last _ hStep ih =>
    obtain ⟨e, between⟩ := middle
    subst hLast
    exact hStep.outcome.trans (ih rfl)

theorem over_of_abandoning (fault : Fault) : ∃ d' result left,
    Reaches h temporary path contents (d, .abandoning fault) (d', .over result left) := by
  cases hRemove : h.guard .remove (d.remove temporary.native) with
  | error other => exact ⟨_, _, _, .single (.unremoved hRemove)⟩
  | ok d' => exact ⟨_, _, _, .single (.removed hRemove)⟩

theorem over_of_synced : ∃ d' result left,
    Reaches h temporary path contents (d, .synced) (d', .over result left) := by
  cases hRename : h.guard .rename (d.rename temporary.native path.native) with
  | error fault =>
    obtain ⟨d', result, left, run⟩ := over_of_abandoning fault
    exact ⟨d', result, left, .head (.unrenamed hRename) run⟩
  | ok d' => exact ⟨_, _, _, .single (.renamed hRename)⟩

theorem over_of_written : ∃ d' result left,
    Reaches h temporary path contents (d, .written place) (d', .over result left) := by
  cases hSync : h.guard .sync (d.sync place) with
  | error fault =>
    obtain ⟨d', result, left, run⟩ := over_of_abandoning fault
    exact ⟨d', result, left, .head (.unsynced hSync) run⟩
  | ok _ =>
    obtain ⟨d', result, left, run⟩ := over_of_synced
    exact ⟨d', result, left, .head (.synced hSync) run⟩

theorem over_of_writing (count : Nat) : ∃ d' result left,
    Reaches h temporary path contents (d, .writing place count) (d', .over result left) := by
  cases hWrite : h.fails .write with
  | some fault =>
    obtain ⟨d', result, left, run⟩ := over_of_abandoning fault
    exact ⟨d', result, left, .head (.unwritten hWrite) run⟩
  | none =>
    obtain ⟨d', result, left, run⟩ := over_of_written
    exact ⟨d', result, left, .head (.completed hWrite) run⟩

/-- A run that is not cut off comes to an end. -/
theorem over_of_begun : ∃ d' result left,
    Reaches h temporary path contents (d, .begun) (d', .over result left) := by
  cases hCreate : h.guard .create (d.create temporary.native) with
  | error fault =>
    obtain ⟨d', result, left, run⟩ := over_of_abandoning fault
    exact ⟨d', result, left, .head (.uncreated hCreate) run⟩
  | ok created =>
    obtain ⟨d', result, left, run⟩ := over_of_writing 0
    exact ⟨d', result, left, .head (.created hCreate) run⟩

/-- **The steps end where `replaceFile` does**, and nowhere else. -/
theorem reaches_over_iff {result : Except Fault Unit} {left : Option Fault} :
    Reaches h temporary path contents (d, .begun) (d', .over result left) ↔
      replaceFile h d temporary path contents = ⟨d', result, left⟩ := by
  constructor
  · exact fun run => run.outcome.symm
  · intro hEnd
    obtain ⟨last, result', left', run⟩ : ∃ last result left,
        Reaches h temporary path contents (d, .begun) (last, .over result left) := over_of_begun
    -- the stage that is over is its own outcome
    have hSame : (⟨last, result', left'⟩ : Replaced Disk) = ⟨d', result, left⟩ :=
      run.outcome.trans hEnd
    cases hSame
    exact run

end Outcome

/-! ## What has been done -/

/-- The disk while the sibling is worked on. No path led on from its place, and none does. -/
structure Drafted (temporary : Path) (d d' : Disk) (place : Place) : Prop where
  names : d.Names temporary place
  blocked : d.Blocked place
  sound : d'.Sound
  home : d'.home = d.home
  others : ∀ q, q ≠ place → d'.get? q = d.get? q
  here : (∃ draft, d'.get? place = some (.file draft)) ∨ d'.get? place = some .device

/-- The disk with the new contents in the stead of what the path named. -/
structure Swapped (temporary path : Path) (contents : String) (d d' : Disk) : Prop where
  home : d'.home = d.home
  file : ∃ place, d.Names path place ∧ d.get? place ≠ some .dir ∧
    d'.get? place = some (.file (.text contents))
  sibling : ∃ place, d.Names temporary place ∧ d.Blocked place ∧ d'.get? place = none
  others : ∀ q, ¬ d.Names path q → ¬ d.Names temporary q → d'.get? q = d.get? q

/-- The disk before the sibling is removed. -/
structure Abandoned (temporary : Path) (d d' : Disk) : Prop where
  sound : d'.Sound
  home : d'.home = d.home
  names : ∀ q, d'.Names temporary q ↔ d.Names temporary q
  others : ∀ q, ¬ d.Names temporary q → d'.get? q = d.get? q
  noDir : ∀ q, d'.get? q = some .dir → d.get? q = some .dir

/-- The disk after a failure. -/
structure GivenUp (h : Hazard) (temporary : Path) (d d' : Disk) : Prop where
  home : d'.home = d.home
  others : ∀ q, ¬ d.Names temporary q → d'.get? q = d.get? q
  sibling : ∀ q, d.Names temporary q →
    d'.get? q = none ∨ d.get? q = some .dir ∨ ∃ fault, h.fails .remove = some fault

/-- What has been done to a disk `d` at each stage. -/
def Replacing.Reached (h : Hazard) (temporary path : Path) (contents : String) (d d' : Disk) :
    Replacing → Prop
  | .begun => d' = d
  | .writing place _ => Drafted temporary d d' place
  | .written place => Drafted temporary d d' place ∧
      (d'.get? place = some (.file (.text contents)) ∨ d'.get? place = some .device)
  | .synced => ∃ place, Drafted temporary d d' place ∧
      d'.get? place = some (.file (.text contents))
  | .abandoning _ => Abandoned temporary d d'
  | .over (.error _) _ => GivenUp h temporary d d'
  | .over (.ok _) _ => Swapped temporary path contents d d'

section Stages

variable {h : Hazard} {temporary path root : Path} {s t contents : String} {d e e' : Disk}
  {place target : Place} {draft : ByteString} {stage stage' : Replacing}

theorem Hazard.action_of_guard {α : Type} {step : Primitive} {action : Except Fault α} {result : α}
    (hGuard : h.guard step action = .ok result) : action = .ok result := by
  unfold Hazard.guard at hGuard
  split at hGuard
  · cases hGuard
  · exact hGuard

/-- Creating a file opens what its path leads to: a file, which is emptied, or a device. -/
theorem Disk.created_of_create {path : ByteString} (hCreate : d.create path = .ok (e, place)) :
    (∃ spot, d.locate .creation path = .ok spot ∧ spot.place = place) ∧ d.Blocked place ∧
      (e = d.set place (.file default) ∨ e = d ∧ d.get? place = some .device) := by
  unfold Disk.create at hCreate
  cases hLocate : d.locate .creation path with
  | error fault => rw [hLocate] at hCreate; cases hCreate
  | ok spot =>
    rw [hLocate] at hCreate
    cases spot with
    | vacant dir name =>
      cases hCreate
      have hFree := Disk.get?_of_vacant hLocate
      exact ⟨⟨_, rfl, rfl⟩, ⟨by simp [hFree], by simp [hFree]⟩, Or.inl rfl⟩
    | entry found =>
      simp only [bind, Except.bind] at hCreate
      split at hCreate
      · next contents hFile =>
        cases hCreate
        exact ⟨⟨_, rfl, rfl⟩, ⟨by simp [hFile], by simp [hFile]⟩, Or.inl rfl⟩
      · next hDevice =>
        cases hCreate
        exact ⟨⟨_, rfl, rfl⟩, ⟨by simp [hDevice], by simp [hDevice]⟩, Or.inr ⟨rfl, hDevice⟩⟩
      · cases hCreate
      · cases hCreate

/-- A device has nothing to make sure of. -/
theorem Disk.no_device_of_sync {d : Disk} {place : Place} (hSync : d.sync place = .ok ()) :
    d.get? place ≠ some .device := by
  intro hDevice
  simp only [Disk.sync, hDevice] at hSync
  cases hSync

namespace Disk.Sound

variable {dir : Place} {name other : Name} {contents : ByteString}

/-- A change that takes no directory away keeps a home. -/
theorem of_wellFormed (h : d.Sound) (hTree : e.WellFormed) (hHome : e.home = d.home)
    (hDirs : ∀ q, d.get? q = some .dir → e.get? q = some .dir) : e.Sound where
  toWellFormed := hTree
  home := by
    rw [hHome]
    exact hDirs _ h.home

/-- A file can stand where no directory does. -/
theorem set_file (h : d.Sound) (hDir : d.get? dir = some .dir) (hName : Name.Valid name)
    (hFree : d.get? (dir ++ [name]) ≠ some .dir) : (d.set (dir ++ [name]) (.file draft)).Sound := by
  refine h.of_wellFormed (h.toWellFormed.set hDir hName hFree) rfl fun q hHere => ?_
  rw [Disk.get?_set h.toWellFormed (by simp), if_neg, hHere]
  rintro rfl
  exact hFree hHere

/-- What is no directory can go. -/
theorem erase (h : d.Sound) (hPlace : place ≠ []) (hLeaf : d.get? place ≠ some .dir) :
    (d.erase place).Sound := by
  refine h.of_wellFormed (h.toWellFormed.erase hPlace hLeaf) rfl fun q hHere => ?_
  rw [Disk.get?_erase h.toWellFormed hPlace, if_neg, hHere]
  rintro rfl
  exact hLeaf hHere

/-- A file can be renamed within its directory. -/
theorem renamed_file (h : d.Sound) (hDir : d.get? dir = some .dir) (hName : Name.Valid name)
    (hNe : other ≠ name) (hFile : d.get? (dir ++ [other]) = some (.file contents))
    (hFree : d.get? (dir ++ [name]) ≠ some .dir) :
    (d.renamed (dir ++ [other]) (dir ++ [name])).Sound := by
  obtain ⟨hTree, hPlaces⟩ := h.toWellFormed.renamed_file hDir hName hNe hFile hFree
  refine h.of_wellFormed hTree rfl fun q hHere => ?_
  rw [hPlaces, if_neg, if_neg, hHere]
  · rintro rfl
    rw [hFile] at hHere
    cases hHere
  · rintro rfl
    exact hFree hHere

end Disk.Sound

namespace Drafted

theorem blocked_now (hDraft : Drafted temporary d e place) : e.Blocked place := by
  rcases hDraft.here with ⟨draft, hFile⟩ | hDevice
  · exact ⟨by simp [hFile], by simp [hFile]⟩
  · exact ⟨by simp [hDevice], by simp [hDevice]⟩

/-- All paths lead where they led. -/
theorem sameWays (hDraft : Drafted temporary d e place) : d.SameWays e where
  home := hDraft.home
  ways q := by
    by_cases hHere : q = place
    · exact Or.inr (hHere ▸ ⟨hDraft.blocked, hDraft.blocked_now⟩)
    · exact Or.inl (hDraft.others q hHere)

/-- What the path of the sibling does not name is as it was. -/
theorem kept (hDraft : Drafted temporary d e place) (hNot : ¬ d.Names temporary target) :
    e.get? target = d.get? target :=
  hDraft.others target fun hHere => hNot (hHere ▸ hDraft.names)

theorem of_set (hSound : d.Sound) (hEntry : temporary.EntryOf root t)
    (hNames : d.Names temporary place) (hBlocked : d.Blocked place) :
    Drafted temporary d (d.set place (.file draft)) place where
  names := hNames
  blocked := hBlocked
  sound := by
    obtain ⟨-, dir, hEnters, rfl⟩ := hEntry.names.mp hNames
    exact hSound.set_file (hSound.enters_dir hEnters) hEntry.valid hBlocked.noDir
  home := rfl
  others q hElse := by
    rw [Disk.get?_set hSound.toWellFormed (hEntry.ne_nil hNames), if_neg hElse]
  here := Or.inl ⟨draft, Disk.get?_set_here d (hEntry.ne_nil hNames) _⟩

/-- Creating the sibling changes nothing else. -/
theorem of_create (hSound : d.Sound) (hEntry : temporary.EntryOf root t)
    (hNames : d.Names temporary place) (hCreate : d.create temporary.native = .ok (e, place)) :
    Drafted temporary d e place := by
  obtain ⟨-, hBlocked, rfl | ⟨rfl, hDevice⟩⟩ := Disk.created_of_create hCreate
  · exact of_set hSound hEntry hNames hBlocked
  · exact ⟨hNames, hBlocked, hSound, rfl, fun _ _ => rfl, Or.inr hDevice⟩

/-- Nor does writing it. -/
theorem write (hDraft : Drafted temporary d e place) (hEntry : temporary.EntryOf root t)
    (contents : ByteString) : Drafted temporary d (e.write place contents) place ∧
      ((e.write place contents).get? place = some (.file contents) ∨
        (e.write place contents).get? place = some .device) := by
  have hNames : e.Names temporary place :=
    (hEntry.names_of_sameWays hDraft.sameWays).mpr hDraft.names
  unfold Disk.write
  rcases hDraft.here with ⟨draft, hFile⟩ | hDevice
  · rw [hFile]
    have hSet : Drafted temporary e (e.set place (.file contents)) place :=
      of_set hDraft.sound hEntry hNames hDraft.blocked_now
    have hHere := Disk.get?_set_here e (hEntry.ne_nil hNames) (.file contents)
    exact ⟨⟨hDraft.names, hDraft.blocked, hSet.sound, hDraft.home,
      fun q hElse => (hSet.others q hElse).trans (hDraft.others q hElse), hSet.here⟩, Or.inl hHere⟩
  · rw [hDevice]
    exact ⟨hDraft, Or.inr hDevice⟩

end Drafted

/-- **Renaming a file** within its directory, by paths: only a directory is in the way. -/
theorem Disk.rename_file {dir : Place} (hEnters : d.Enters root dir)
    (hSibling : temporary.EntryOf root t) (hFile : path.EntryOf root s) (hNe : t ≠ s)
    (hUsable : temporary.Usable) (hPath : path.Usable)
    (hHere : d.get? (dir ++ [.text t]) = some (.file draft)) :
    d.rename temporary.native path.native =
      if d.get? (dir ++ [.text s]) = some .dir then .error .isDirectory
      else .ok (d.renamed (dir ++ [.text t]) (dir ++ [.text s])) := by
  have hOld := hSibling.find hEnters hUsable (Or.inl rfl) hHere
  have hNew := hFile.locate hEnters hPath (Or.inl rfl)
  have hSpot : d.rename temporary.native path.native = (do
      if dir ++ [.text t] = (d.leaf dir (.text s)).place then return d
      if dir ++ [.text t] <+: (d.leaf dir (.text s)).place then .error .invalid
      if (d.leaf dir (.text s)).place <+: dir ++ [.text t] then .error .notEmpty
      d.checkReplace (dir ++ [.text t]) (d.leaf dir (.text s)).place
      return (d.erase (d.leaf dir (.text s)).place).moveTree (dir ++ [.text t])
        (d.leaf dir (.text s)).place) := by
    unfold Disk.rename
    rw [hOld, hNew]
    cases d.leaf dir (.text s) <;> rfl
  -- the two stand side by side
  have hBeside {u v : String} (hNot : u ≠ v) :
      ¬ dir ++ [(.text u : Name)] <+: dir ++ [.text v] := by
    intro hBelow
    have hSame := hBelow.eq_of_length (by simp)
    exact hNot (ByteString.text.inj (List.singleton_inj.mp (List.append_cancel_left hSame)))
  have hApart : dir ++ [(.text t : Name)] ≠ dir ++ [.text s] :=
    fun hSame => hBeside hNe (hSame ▸ List.prefix_rfl)
  rw [hSpot, Disk.place_leaf, if_neg hApart, if_neg (hBeside hNe), if_neg (hBeside hNe.symm)]
  unfold Disk.checkReplace
  rw [hHere]
  cases hTarget : d.get? (dir ++ [.text s]) with
  | none => rfl
  | some e => cases e <;> rfl

/-- What renaming the sibling comes to: it did not take the stead of a directory. -/
theorem Drafted.renamed (hDraft : Drafted temporary d e place) (hSibling : temporary.EntryOf root t)
    (hFile : path.EntryOf root s) (hNe : t ≠ s)
    (hContents : e.get? place = some (.file draft))
    (hRename : e.rename temporary.native path.native = .ok e') :
    ∃ dir, d.Enters root dir ∧ place = dir ++ [.text t] ∧ path.Usable ∧
      e.get? (dir ++ [.text s]) ≠ some .dir ∧
      e' = e.renamed (dir ++ [.text t]) (dir ++ [.text s]) := by
  obtain ⟨hUsable, dir, hEnters, rfl⟩ := hSibling.names.mp hDraft.names
  have hInto := hEnters.of_sameWays hDraft.sameWays
  -- a path that is not usable is no new name
  have hPath : path.Usable := by
    cases hNew : e.locate .entry path.native with
    | ok spot => exact Disk.usable_of_locate hNew
    | error fault =>
      unfold Disk.rename at hRename
      rw [hSibling.find hInto hUsable (Or.inl rfl) hContents, hNew] at hRename
      cases hRename
  rw [Disk.rename_file hInto hSibling hFile hNe hUsable hPath hContents] at hRename
  split at hRename
  · cases hRename
  · next hFree =>
    cases hRename
    exact ⟨dir, hEnters, rfl, hPath, hFree, rfl⟩

/-- Renaming the sibling swaps the contents, and changes nothing else. -/
theorem Drafted.swapped (hDraft : Drafted temporary d e place) (hSibling : temporary.EntryOf root t)
    (hFile : path.EntryOf root s) (hNe : t ≠ s)
    (hContents : e.get? place = some (.file (.text contents)))
    (hRename : e.rename temporary.native path.native = .ok e') :
    Swapped temporary path contents d e' := by
  obtain ⟨dir, hEnters, rfl, hPath, hFree, rfl⟩ :=
    hDraft.renamed hSibling hFile hNe hContents hRename
  have hDir := hDraft.sound.enters_dir (hEnters.of_sameWays hDraft.sameWays)
  have hApart : (.text t : Name) ≠ .text s := fun hSame => hNe (ByteString.text.inj hSame)
  obtain ⟨-, hPlaces⟩ :=
    hDraft.sound.toWellFormed.renamed_file hDir hFile.valid hApart hContents hFree
  have hTarget : d.Names path (dir ++ [.text s]) := hFile.names.mpr ⟨hPath, dir, hEnters, rfl⟩
  have hElse : dir ++ [(.text t : Name)] ≠ dir ++ [.text s] := by simpa using hNe
  refine ⟨hDraft.home, ⟨_, hTarget, ?_, ?_⟩, ⟨_, hDraft.names, hDraft.blocked, ?_⟩,
    fun q hNotFile hNotSibling => ?_⟩
  · rwa [← hDraft.others _ hElse.symm]
  · rw [hPlaces, if_pos rfl]
  · rw [hPlaces, if_neg hElse, if_pos rfl]
  · have hOther : q ≠ dir ++ [.text t] := by
      rintro rfl
      exact hNotSibling hDraft.names
    rw [hPlaces, if_neg (by rintro rfl; exact hNotFile hTarget), if_neg hOther,
      hDraft.others q hOther]

/-- What was removed, and that it was no directory. -/
theorem Disk.erased_of_remove (hRemove : d.remove temporary.native = .ok e) :
    ∃ place, d.Names temporary place ∧ (∃ here, d.get? place = some here) ∧
      d.get? place ≠ some .dir ∧ e = d.erase place := by
  unfold Disk.remove at hRemove
  cases hFind : d.find .entry temporary.native with
  | error fault => rw [hFind] at hRemove; cases hRemove
  | ok place =>
    simp only [hFind, bind, Except.bind] at hRemove
    split at hRemove
    · cases hRemove
    · cases hRemove
    · next here hNoDir hHere =>
      cases hRemove
      refine ⟨place, Disk.names_of_find hFind, ⟨here, hHere⟩, fun hDir => ?_, rfl⟩
      exact hNoDir (Option.some.inj (hHere.symm.trans hDir))

/-- At once if the sibling could not be created. -/
theorem Abandoned.refl (hSound : d.Sound) : Abandoned temporary d d :=
  ⟨hSound, rfl, fun _ => Iff.rfl, fun _ _ => rfl, fun _ => id⟩

theorem Drafted.abandoned (hDraft : Drafted temporary d e place)
    (hSibling : temporary.EntryOf root t) : Abandoned temporary d e where
  sound := hDraft.sound
  home := hDraft.home
  names q := hSibling.names_of_sameWays hDraft.sameWays
  others q hNot := hDraft.kept hNot
  noDir q hDir := by
    by_cases hHere : q = place
    · exact absurd (hHere ▸ hDir) hDraft.blocked_now.noDir
    · rwa [← hDraft.others q hHere]

theorem Abandoned.removed (hLeft : Abandoned temporary d e) (hSibling : temporary.EntryOf root t)
    (hRemove : e.remove temporary.native = .ok e') : GivenUp h temporary d e' := by
  obtain ⟨place, hNames, -, -, rfl⟩ := Disk.erased_of_remove hRemove
  have hErase {q : Place} := Disk.get?_erase (q := q) hLeft.sound.toWellFormed
    (hSibling.ne_nil hNames)
  refine ⟨hLeft.home, fun q hNot => ?_, fun q hHere => Or.inl ?_⟩
  · rw [hErase, if_neg, hLeft.others q hNot]
    rintro rfl
    exact hNot ((hLeft.names q).mp hNames)
  · rw [hErase, if_pos (((hLeft.names q).mpr hHere).unique hNames)]

theorem Abandoned.unremoved {left : Fault} (hLeft : Abandoned temporary d e)
    (hSibling : temporary.EntryOf root t)
    (hRemove : h.guard .remove (e.remove temporary.native) = .error left) :
    GivenUp h temporary d e := by
  refine ⟨hLeft.home, hLeft.others, fun q hHere => ?_⟩
  cases hRefused : h.fails .remove with
  | some fault => exact Or.inr (Or.inr ⟨fault, rfl⟩)
  | none =>
    -- otherwise there is nothing, or a directory
    rw [Hazard.guard, hRefused] at hRemove
    cases hEntry : e.get? q with
    | none => exact Or.inl rfl
    | some here =>
      obtain ⟨hUsable, dir, hEnters, rfl⟩ := hSibling.names.mp ((hLeft.names q).mpr hHere)
      have hFind := hSibling.find hEnters hUsable (Or.inl rfl) hEntry
      refine Or.inr (Or.inl (hLeft.noDir _ ?_))
      unfold Disk.remove at hRemove
      simp only [hFind, bind, Except.bind, hEntry] at hRemove
      cases here with
      | dir => exact hEntry
      | file contents | link target | socket | device => cases hRemove

/-! ## Steps -/

/-- **What one step keeps.** -/
theorem Replacing.Reached.step (hSound : d.Sound) (hSibling : temporary.EntryOf root t)
    (hFile : path.EntryOf root s) (hNe : t ≠ s)
    (hOwn : ∀ d' place, h.guard .create (d.create temporary.native) = .ok (d', place) →
      d.Names temporary place)
    (hBefore : stage.Reached h temporary path contents d e)
    (hStep : ReplaceStep h temporary path contents (e, stage) (e', stage')) :
    stage'.Reached h temporary path contents d e' := by
  cases hStep with
  | created hCreate =>
    cases hBefore
    exact Drafted.of_create hSound hSibling (hOwn _ _ hCreate) (Hazard.action_of_guard hCreate)
  | uncreated hCreate =>
    cases hBefore
    exact Abandoned.refl hSound
  | wrote hMore hRoom => exact (Drafted.write hBefore hSibling _).1
  | unwritten hWrite => exact (Drafted.write hBefore hSibling _).1.abandoned hSibling
  | completed hWrite => exact Drafted.write hBefore hSibling _
  | synced hSync =>
    obtain ⟨hDraft, hFull | hDevice⟩ := hBefore
    · exact ⟨_, hDraft, hFull⟩
    · exact absurd hDevice (Disk.no_device_of_sync (Hazard.action_of_guard hSync))
  | unsynced hSync => exact hBefore.1.abandoned hSibling
  | renamed hRename =>
    obtain ⟨place, hDraft, hFull⟩ := hBefore
    exact hDraft.swapped hSibling hFile hNe hFull (Hazard.action_of_guard hRename)
  | unrenamed hRename =>
    obtain ⟨place, hDraft, -⟩ := hBefore
    exact hDraft.abandoned hSibling
  | removed hRemove => exact Abandoned.removed hBefore hSibling (Hazard.action_of_guard hRemove)
  | unremoved hRemove => exact Abandoned.unremoved hBefore hSibling hRemove

/-- **What a run keeps**, however far it gets. -/
theorem Reaches.reached (hSound : d.Sound) (hSibling : temporary.EntryOf root t)
    (hFile : path.EntryOf root s) (hNe : t ≠ s)
    (hOwn : ∀ d' place, h.guard .create (d.create temporary.native) = .ok (d', place) →
      d.Names temporary place)
    (run : Reaches h temporary path contents (d, .begun) (e, stage)) :
    stage.Reached h temporary path contents d e := by
  generalize hLast : (e, stage) = last at run
  induction run generalizing e stage with
  | refl => cases hLast; rfl
  | @tail middle last _ hStep ih =>
    obtain ⟨between, stage'⟩ := middle
    subst hLast
    exact (ih rfl).step hSound hSibling hFile hNe hOwn hStep

/-- Two entries of one directory are apart. -/
theorem Path.EntryOf.apart (hSibling : temporary.EntryOf root t) (hFile : path.EntryOf root s)
    (hNe : t ≠ s) (hPath : d.Names path place) : ¬ d.Names temporary place := by
  intro hNames
  obtain ⟨-, dir, hEnters, rfl⟩ := hFile.names.mp hPath
  obtain ⟨-, other, hInto, hSame⟩ := hSibling.names.mp hNames
  obtain ⟨-, hName⟩ := List.append_inj' hSame rfl
  exact hNe (ByteString.text.inj (List.singleton_inj.mp hName)).symm

/-- **The old or the new**: at no stage does anything else stand under the path, and nothing is
changed besides the file and its sibling. -/
theorem Replacing.Reached.old_or_new (hSibling : temporary.EntryOf root t)
    (hFile : path.EntryOf root s) (hNe : t ≠ s)
    (hReached : stage.Reached h temporary path contents d e) :
    (∀ place, d.Names path place →
        e.get? place = d.get? place ∨ e.get? place = some (.file (.text contents))) ∧
      ∀ place, ¬ d.Names path place → ¬ d.Names temporary place →
        e.get? place = d.get? place := by
  -- where only the sibling has changed, the path still names the old
  have hOld (hKept : ∀ q, ¬ d.Names temporary q → e.get? q = d.get? q) :
      (∀ place, d.Names path place →
          e.get? place = d.get? place ∨ e.get? place = some (.file (.text contents))) ∧
        ∀ place, ¬ d.Names path place → ¬ d.Names temporary place →
          e.get? place = d.get? place :=
    ⟨fun place hPath => Or.inl (hKept place (hSibling.apart hFile hNe hPath)),
      fun place _ hNot => hKept place hNot⟩
  match stage, hReached with
  | .begun, hSame => exact hOld fun q _ => by rw [show e = d from hSame]
  | .writing _ _, hDraft => exact hOld fun q hNot => Drafted.kept hDraft hNot
  | .written _, hDraft => exact hOld fun q hNot => hDraft.1.kept hNot
  | .synced, ⟨_, hDraft, _⟩ => exact hOld fun q hNot => hDraft.kept hNot
  | .abandoning _, hLeft => exact hOld (Abandoned.others hLeft)
  | .over (.error _) _, hGivenUp => exact hOld (GivenUp.others hGivenUp)
  | .over (.ok _) _, hSwapped =>
    obtain ⟨place, hNames, -, hNew⟩ := Swapped.file hSwapped
    exact ⟨fun q hPath => Or.inr (hPath.unique hNames ▸ hNew), Swapped.others hSwapped⟩

end Stages

end TreeWatch
