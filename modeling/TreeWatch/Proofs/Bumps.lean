import TreeWatch.Proofs.Replacement

/-!
# Bumps

What a bump does to the disk is what replacing the counter does to it: the counter is read first,
and that changes nothing. The counter and its sibling are entries of the root, so the steps of the
replacement say at which places a bump makes a change, and when.

Main results:
  * `bump_eq`: a bump is its replacement, on any file system
  * `counter_replaced_atomically`: the counter is the old one or the new one at any moment
-/

namespace TreeWatch

/-! ## The replacement in a bump -/

section

variable {σ : Type} [FileSystem σ]

/-- The sibling that the counter of a root is replaced through. -/
def siblingPath (d : σ) (root : Path) : Path :=
  temporaryPath (counterPath d root)

/-- The number that a bump counts up to. -/
def bumpedVersion (d : σ) (root : Path) : UInt64 :=
  let path := counterPath d root
  nextVersion (startingVersion path (startingFile d path).1).1

/-- The contents that a bump writes. -/
def bumpedText (d : σ) (root : Path) : String :=
  ((startingFile d (counterPath d root)).1.setVersion (bumpedVersion d root)).render

/-- The replacement in a bump. -/
def bumpReplaced (h : Hazard) (d : σ) (root : Path) : Replaced σ :=
  replaceFile h d (siblingPath d root) (counterPath d root) (bumpedText d root)

/-- **A bump is its replacement.** -/
theorem bump_eq (h : Hazard) (d : σ) (root : Path) :
    (bump h d root).disk = (bumpReplaced h d root).disk ∧
      (bump h d root).result = ((bumpReplaced h d root).result.mapError
        (.access (counterPath d root))).map fun () => bumpedVersion d root := by
  unfold bump bumpReplaced siblingPath bumpedText bumpedVersion
  dsimp only
  generalize startingFile d (counterPath d root) = start
  obtain ⟨file, unusable⟩ := start
  dsimp only
  generalize startingVersion (counterPath d root) file = version
  exact ⟨rfl, rfl⟩

/-- The counter and its sibling are entries of the root, whatever name the counter has. -/
theorem entries_of_counterPath {d : σ} {root : Path} {name : String}
    (hName : isCounterName name = true) (hPath : counterPath d root = root.join ⟨name⟩) :
    (counterPath d root).EntryOf root name ∧
      (siblingPath d root).EntryOf root (name ++ temporarySuffix) := by
  have hValid := valid_counterName hName
  obtain ⟨q, hSame, hSibling⟩ := temporaryPath_join root hValid.isName
  refine ⟨⟨hValid, root, Path.SameAs.refl root, hPath⟩, valid_temporaryName hName, q, hSame, ?_⟩
  unfold siblingPath
  rw [hPath, hSibling]

theorem entries_of_bump (d : σ) (root : Path) : ∃ name,
    (counterPath d root).EntryOf root name ∧
      (siblingPath d root).EntryOf root (name ++ temporarySuffix) := by
  obtain ⟨name, hName, hPath⟩ := exists_counterName d root
  exact ⟨name, entries_of_counterPath hName hPath⟩

end

variable {h : Hazard} {d : Disk} {root : Path}

/-- The moments at which a bump can be cut off. -/
def BumpReaches (h : Hazard) (d : Disk) (root : Path) (d' : Disk) (stage : Replacing) : Prop :=
  Reaches h (siblingPath d root) (counterPath d root) (bumpedText d root) (d, .begun) (d', stage)

/-- A bump ends as its replacement does. -/
theorem bump_reaches (h : Hazard) (d : Disk) (root : Path) : ∃ result left,
    BumpReaches h d root (bump h d root).disk (.over result left) ∧
      (bump h d root).result =
        (result.mapError (.access (counterPath d root))).map fun () => bumpedVersion d root :=
  ⟨(bumpReplaced h d root).result, (bumpReplaced h d root).left,
    reaches_over_iff.mpr (by rw [(bump_eq h d root).1]; rfl), (bump_eq h d root).2⟩

/-! ## Cut off at any moment -/

/-- What is no link is opened itself. -/
theorem Path.EntryOf.opens_entry {p : Path} {s : String} {d' : Disk} {place : Place}
    (hEntry : p.EntryOf root s)
    (hNoLink : ∀ dir, d.Enters root dir → ∀ target, d.get? (dir ++ [.text s]) ≠ some (.link target))
    (hCreate : d.create p.native = .ok (d', place)) : d.Names p place := by
  obtain ⟨⟨spot, hLocate, rfl⟩, -⟩ := Disk.created_of_create hCreate
  obtain ⟨hUsable, dir, hEnters⟩ := hEntry.enters hLocate
  rw [hEntry.locate hEnters hUsable (Or.inr (hNoLink dir hEnters))] at hLocate
  cases hLocate
  exact hEntry.names.mpr ⟨hUsable, dir, hEnters, Disk.place_leaf dir _⟩

theorem Path.EntryOf.opens_itself {p : Path} {s : String} {d' : Disk} {place : Place}
    (hEntry : p.EntryOf root s) (hNoLink : ∀ target, d.linkStat p.native ≠ .ok (.link target))
    (hCreate : d.create p.native = .ok (d', place)) : d.Names p place := by
  refine hEntry.opens_entry (fun dir hEnters target hLink => hNoLink target ?_) hCreate
  have hUsable : p.Usable := by
    obtain ⟨⟨spot, hLocate, -⟩, -⟩ := Disk.created_of_create hCreate
    exact Disk.usable_of_locate hLocate
  unfold Disk.linkStat
  rw [hEntry.find hEnters hUsable (Or.inl rfl) hLink]
  show Except.ok ((d.get? _).getD .dir) = _
  rw [hLink]
  rfl

/-- The counter of a root is **replaced atomically**, whichever of the primitive steps fail: when a
bump is cut off, the place of the counter holds what it held before or a file with all of the new
contents, and no place but that of the counter and that of its sibling has changed. The bump ends
at one of these moments. If it fails the counter is what it was before, else it is the new one. At
the end nothing stands at the place of the sibling, unless a directory stood there before, or it
could not be removed after a failure.
-/
theorem counter_replaced_atomically (h : Hazard) (d : Disk) (root : Path) (hSound : d.Sound)
    (hNoLink : ∀ target, d.linkStat (siblingPath d root).native ≠ .ok (.link target)) :
    (∀ d' stage, BumpReaches h d root d' stage →
      (∀ place, d.Names (counterPath d root) place →
        d'.get? place = d.get? place ∨
          d'.get? place = some (.file (.text (bumpedText d root)))) ∧
      ∀ place, ¬ d.Names (counterPath d root) place → ¬ d.Names (siblingPath d root) place →
        d'.get? place = d.get? place) ∧
    (∃ result left, BumpReaches h d root (bump h d root).disk (.over result left)) ∧
    (∀ error, (bump h d root).result = .error error → ∀ place,
      d.Names (counterPath d root) place → (bump h d root).disk.get? place = d.get? place) ∧
    (∀ n, (bump h d root).result = .ok n → ∃ place, d.Names (counterPath d root) place ∧
      (bump h d root).disk.get? place = some (.file (.text (bumpedText d root)))) ∧
    ∀ place, d.Names (siblingPath d root) place →
      (bump h d root).disk.get? place = none ∨ d.get? place = some .dir ∨
        (∃ error, (bump h d root).result = .error error) ∧
          ∃ fault, h.fails .remove = some fault := by
  obtain ⟨name, hFile, hSibling⟩ := entries_of_bump d root
  have hNe := temporaryName_ne name
  have hReached {d' : Disk} {stage : Replacing} (run : BumpReaches h d root d' stage) :=
    Reaches.reached hSound hSibling hFile hNe
      (fun d' place hCreate => hSibling.opens_itself hNoLink (Hazard.action_of_guard hCreate)) run
  -- a bump ends at a stage that is over, with what that stage says of the disk
  obtain ⟨result, left, run, hResult⟩ := bump_reaches h d root
  have hEnd := hReached run
  refine ⟨fun d' stage run => (hReached run).old_or_new hSibling hFile hNe,
    ⟨result, left, run⟩, ?_⟩
  rw [hResult]
  cases result with
  | error fault =>
    refine ⟨fun error _ place hNames => ?_, fun n hOk => (by cases hOk), fun place hNames => ?_⟩
    · exact GivenUp.others hEnd place (hSibling.apart hFile hNe hNames)
    · exact (GivenUp.sibling hEnd place hNames).imp_right (Or.imp_right fun hRefused =>
        ⟨⟨_, rfl⟩, hRefused⟩)
  | ok _ =>
    refine ⟨fun error hError => (by cases hError), fun n _ => ?_, fun place hNames => Or.inl ?_⟩
    · obtain ⟨place, hNames, -, hNew⟩ := Swapped.file hEnd
      exact ⟨place, hNames, hNew⟩
    · obtain ⟨gone, hGone, -, hNone⟩ := Swapped.sibling hEnd
      rw [hNames.unique hGone, hNone]

/-- A root, what lies in it, and a file beside it. -/
def rootHolding (entries : List (Name × Entry)) : Disk where
  entries := ([.text "r"], .dir) :: entries.map (fun e => ([.text "r", e.1], e.2)) ++
    [([.text "victim"], .file (.text "precious"))]
  home := []

/-- A counter that stands at 4. -/
def counterAtFour : Name × Entry :=
  (.text "gpt.ini", .file (.text "[General]\nVersion=4\n"))

/-- A root with a counter and nothing else. -/
def orderly : Disk :=
  rootHolding [counterAtFour]

/-- There is room for five bytes only. -/
def fullDisk : Hazard :=
  ⟨fun step => if step = .write then some (.system 28) else none, 5⟩

/-- When the disk is full the counter stays, and the sibling goes. -/
theorem counter_survives_full_disk :
    (bump fullDisk orderly ⟨"r"⟩).disk.get? [.text "r", .text "gpt.ini"] = some counterAtFour.2 ∧
      (bump fullDisk orderly ⟨"r"⟩).disk.get? [.text "r", .text "gpt.ini.tmp"] = none := by
  have hFree : orderly.linkStat (siblingPath orderly ⟨"r"⟩).native = .error .notFound := by
    decide +kernel
  obtain ⟨-, -, hFailed, -, hGone⟩ := counter_replaced_atomically fullDisk orderly ⟨"r"⟩
    (by decide) (by simp [hFree])
  have hResult : (bump fullDisk orderly ⟨"r"⟩).result =
      .error (.access ⟨"r/gpt.ini"⟩ (.system 28)) := by decide +kernel
  have hSibling : orderly.Names (siblingPath orderly ⟨"r"⟩) [.text "r", .text "gpt.ini.tmp"] := by
    decide +kernel
  refine ⟨hFailed _ hResult _ (by decide +kernel), ?_⟩
  rcases hGone _ hSibling with hNone | hDir | ⟨-, fault, hRefused⟩
  · exact hNone
  · cases hDir
  · cases hRefused

end TreeWatch
