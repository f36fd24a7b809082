import TreeWatch.Proofs.Artifacts
import TreeWatch.Proofs.Marks

/-!
# A rename, however it is reported

Engines report a rename in different ways: both paths in one event, one event for each end, an event
without a direction, or a removal and a creation. Each event is told apart path by path, before any
of its paths is handled, and what an undirected one means is asked of the disk. On a disk that has
the new path and not the old one all of them come to the same two changes (`movedChanges`), so
everything that follows is the same. The clock decides nothing but the time of the deadline.

Main results:
  * `ToldRename.changes_eq`: every report comes to the same changes
  * `Coalescer.handleChanges_eq`, `Coalescer.handleAll_eq`: events are the changes that they report,
    one after another
  * `Coalescer.timeless_handleChange`: what a change does whatever the clock shows
  * `renames_are_handled_alike`: reports of a rename, and events with several paths
-/

namespace TreeWatch

/-! ## Reports -/

/-- What a rename comes to: one path disappeared, and after that another one appeared. -/
def movedChanges (old new : Path) : List Change :=
  [⟨old, .removed⟩, ⟨new, .created⟩]

/-- A renaming of which it is not said which end a path is. -/
def EventKind.Undirected (kind : EventKind) : Prop :=
  kind = .rename .any ∨ kind = .rename .other

/-- The events in which a rename may be reported. -/
inductive ToldRename (old new : Path) : List Event → Prop
  | both : ToldRename old new [⟨.rename .both, [old.native, new.native]⟩]
  | ends : ToldRename old new
      [⟨.rename .source, [old.native]⟩, ⟨.rename .target, [new.native]⟩]
  | undirected {kind : EventKind} (hKind : kind.Undirected) :
      ToldRename old new [⟨kind, [old.native, new.native]⟩]
  | undirected_ends {first second : EventKind} (hFirst : first.Undirected)
      (hSecond : second.Undirected) :
      ToldRename old new [⟨first, [old.native]⟩, ⟨second, [new.native]⟩]
  | replaced : ToldRename old new [⟨.remove, [old.native]⟩, ⟨.create, [new.native]⟩]

variable {d : Disk} {old new : Path} {events : List Event}

/-- What an undirected event says of a path is asked of the disk. -/
theorem EventKind.Undirected.change {kind : EventKind} (h : kind.Undirected) (path : Path)
    (index : Nat) : kind.change d path index =
      if (d.linkStat path.native).isOk then .created else .removed := by
  rcases h with rfl | rfl <;> rfl

/-- **Every report of a rename** comes to the same changes, if only the new path is there. -/
theorem ToldRename.changes_eq (h : ToldRename old new events)
    (hGone : (d.linkStat old.native).isOk = false) (hThere : (d.linkStat new.native).isOk = true) :
    events.flatMap (fun event => (classify d event).1) = movedChanges old new := by
  have hOld {kind : EventKind} (hKind : kind.Undirected) (index : Nat) :
      kind.change d old index = .removed := by
    rw [hKind.change, hGone]
    rfl
  have hNew {kind : EventKind} (hKind : kind.Undirected) (index : Nat) :
      kind.change d new index = .created := by
    rw [hKind.change, hThere]
    rfl
  -- in three of the reports the kind says it all, in the others the disk decides
  cases h with
  | both | ends | replaced => rfl
  | @undirected kind hKind =>
    show [Change.mk old (kind.change d old 0), Change.mk new (kind.change d new 1)] = _
    rw [hOld hKind, hNew hKind]
    rfl
  | @undirected_ends first second hFirst hSecond =>
    show [Change.mk old (first.change d old 0), Change.mk new (second.change d new 0)] = _
    rw [hOld hFirst, hNew hSecond]
    rfl

/-- Of a path in an event the position counts only where both ends of a rename are told. -/
theorem EventKind.change_index {kind : EventKind} (h : kind ≠ .rename .both) (path : Path)
    (index : Nat) : kind.change d path index = kind.change d path 0 := by
  unfold change
  split <;> first | rfl | contradiction

/-- An event is told apart like events of one path each. -/
theorem classifyFrom_flatMap {kind : EventKind} (h : kind ≠ .rename .both)
    (paths : List ByteString) : ∀ index, (classifyFrom d kind index paths).1 =
      paths.flatMap fun path => (classify d ⟨kind, [path]⟩).1 := by
  induction paths with
  | nil => exact fun _ => rfl
  | cons path rest ih =>
    intro index
    have hRest := ih (index + 1)
    rw [List.flatMap_cons, ← hRest]
    cases path with
    | text s =>
      show Change.mk ⟨s⟩ (kind.change d ⟨s⟩ index) :: _ = Change.mk ⟨s⟩ (kind.change d ⟨s⟩ 0) :: _
      rw [EventKind.change_index h ⟨s⟩ index]
      rfl
    | raw bytes notText => rfl

/-! ## Events are changes one after another -/

namespace Coalescer

variable {c c' : Coalescer} {now later : Nat} {change : Change}

/-- The coalescer after changes that were handled at times of their own. -/
def handleTimed (c : Coalescer) (d : Disk) (changes : List (Change × Nat)) : Coalescer :=
  changes.foldl (fun c timed => (c.handleChange d timed.2 timed.1).1) c

theorem handleChanges_eq (changes : List Change) : ∀ c : Coalescer,
    (c.handleChanges d now changes).1 = c.handleTimed d (changes.map (·, now)) := by
  induction changes with
  | nil => exact fun _ => rfl
  | cons change rest ih => exact fun c => ih _

/-- Events are the changes they report, each at the time of its event. -/
theorem handleAll_eq (arrivals : List Arrival) : ∀ c : Coalescer,
    (∀ arrival ∈ arrivals, arrival.disk = d) →
      c.handleAll arrivals = c.handleTimed d (arrivals.flatMap fun arrival =>
        (classify d arrival.event).1.map (·, arrival.now)) := by
  induction arrivals with
  | nil => exact fun _ _ => rfl
  | cons arrival rest ih =>
    intro c hDisk
    have hRest := ih (c.handleEvent arrival.disk arrival.now arrival.event).1
      fun other hOther => hDisk other (List.mem_cons_of_mem _ hOther)
    show (c.handleEvent _ _ _).1.handleAll rest = _
    rw [hRest, handleEvent_fst, hDisk arrival List.mem_cons_self, handleChanges_eq,
      List.flatMap_cons]
    exact (List.foldl_append ..).symm

/-! ## Whatever the clock shows -/

/-- A coalescer but for the time of its deadline. -/
def timeless (c : Coalescer) : Coalescer :=
  { c with deadline := none }

theorem exists_deadline (h : c.timeless = c'.timeless) :
    ∃ deadline, c' = { c with deadline := deadline } := by
  refine ⟨c'.deadline, ?_⟩
  show c' = { c.timeless with deadline := c'.deadline }
  rw [h]
  rfl

/-- Applying a change neither asks for the deadline nor moves it. -/
theorem apply_deadline (c : Coalescer) (d : Disk) (change : Change) (deadline : Option Nat) :
    ({ c with deadline } : Coalescer).apply d change =
      ((c.apply d change).1.map fun applied => { applied with deadline },
        (c.apply d change).2) := by
  unfold apply
  cases change.kind with
  | removed | modified | ignored => rfl
  | created =>
    show track _ d change.path = _
    unfold track
    cases d.linkStat change.path.native with
    | error fault => rfl
    | ok entry =>
      cases entry with
      | dir | link target | socket | device => rfl
      | file contents =>
        dsimp only
        rcases c.registrar.subscribe change.path with ⟨registrar, fault | isNew⟩ <;> rfl

/-- **What a change does** does not depend on the clock, but for the time of the deadline. -/
theorem timeless_handleChange (h : c.timeless = c'.timeless) :
    (c.handleChange d now change).1.timeless = (c'.handleChange d later change).1.timeless := by
  obtain ⟨deadline, rfl⟩ := exists_deadline h
  unfold handleChange
  rw [apply_deadline c d change deadline]
  -- the deadline is not asked for on the way, so both take the same branches
  have hSame (c : Coalescer) : ({ c with deadline } : Coalescer).crashed = c.crashed := rfl
  by_cases hCrash : c.crashed = true
  · rw [hSame, if_pos hCrash, if_pos hCrash]
    rfl
  rw [hSame, if_neg hCrash, if_neg hCrash]
  by_cases hArtifact : isCounterArtifact change.path = true
  · rw [if_pos hArtifact, if_pos hArtifact]
    rfl
  rw [if_neg hArtifact, if_neg hArtifact]
  rcases c.apply d change with ⟨_ | applied, notices⟩
  · rfl
  dsimp only [Option.map_some]
  by_cases hGone : applied.crashed = true
  · rw [hSame, if_pos hGone, if_pos hGone]
    rfl
  rw [hSame, if_neg hGone, if_neg hGone]
  by_cases hQualifies : change.kind.qualifies = true
  · rw [if_pos hQualifies, if_pos hQualifies, mark_fst, mark_fst]
    dsimp only
    cases resolveRoot change.path applied.roots <;> rfl
  · rw [if_neg hQualifies, if_neg hQualifies]
    rfl

/-- The same changes at other times leave the same behind, but for the time of the deadline. -/
theorem timeless_handleTimed (changes : List (Change × Nat)) :
    ∀ {c c' : Coalescer} {others : List (Change × Nat)}, c.timeless = c'.timeless →
      changes.map Prod.fst = others.map Prod.fst →
      (c.handleTimed d changes).timeless = (c'.handleTimed d others).timeless := by
  induction changes with
  | nil =>
    intro c c' others h hSame
    obtain rfl : others = [] := List.map_eq_nil_iff.mp hSame.symm
    exact h
  | cons first rest ih =>
    intro c c' others h hSame
    obtain ⟨other, more, rfl, hFirst, hRest⟩ := List.map_eq_cons_iff.mp hSame.symm
    have hNext : (c.handleChange d first.2 first.1).1.timeless =
        (c'.handleChange d other.2 other.1).1.timeless := by
      rw [hFirst]
      exact timeless_handleChange h
    show ((c.handleChange d first.2 first.1).1.handleTimed d rest).timeless =
      ((c'.handleChange d other.2 other.1).1.handleTimed d more).timeless
    exact ih hNext hRest.symm

end Coalescer

/-! ## Main result -/

/--
**A rename is handled the same, however it is reported.** Take any coalescer, and a disk on which
the old path of a rename names nothing and the new one names an entry. Whichever of the reports the
events are, and at whatever times they are handled, the engine is given the same requests in the
same order, and the same paths are subscribed and the same roots dirty as after the removal of the
old path and the appearance of the new one. If the clock stands still, so is the deadline.

More generally, unless it reports both ends of a rename, an event with several paths is handled
like as many events with one path each, in order.
-/
theorem renames_are_handled_alike :
    (∀ (c : Coalescer) (d : Disk) (now : Nat) (old new : Path) (arrivals : List Arrival),
      (d.linkStat old.native).isOk = false → (d.linkStat new.native).isOk = true →
      (∀ arrival ∈ arrivals, arrival.disk = d) → ToldRename old new (arrivals.map Arrival.event) →
      (c.handleAll arrivals).timeless =
          (c.handleChanges d now (movedChanges old new)).1.timeless ∧
        ((∀ arrival ∈ arrivals, arrival.now = now) →
          c.handleAll arrivals = (c.handleChanges d now (movedChanges old new)).1)) ∧
    ∀ (c : Coalescer) (d : Disk) (now : Nat) (kind : EventKind) (paths : List ByteString),
      kind ≠ .rename .both → (c.handleEvent d now ⟨kind, paths⟩).1 =
        c.handleAll (paths.map fun path => ⟨d, now, ⟨kind, [path]⟩⟩) := by
  constructor
  · intro c d now old new arrivals hGone hThere hDisk hTold
    have hChanges := hTold.changes_eq hGone hThere
    rw [List.flatMap_map] at hChanges
    rw [Coalescer.handleAll_eq arrivals c hDisk, Coalescer.handleChanges_eq, ← hChanges]
    constructor
    · refine Coalescer.timeless_handleTimed _ rfl ?_
      simp only [List.map_flatMap, List.map_map, Function.comp_def, List.map_id']
    · intro hNow
      have hTimes : (arrivals.flatMap fun arrival =>
          (classify d arrival.event).1.map fun change => (change, arrival.now)) =
          arrivals.flatMap fun arrival =>
            (classify d arrival.event).1.map fun change => (change, now) :=
        List.flatMap_congr fun arrival hArrival => by rw [hNow arrival hArrival]
      rw [hTimes, List.map_flatMap]
  · intro c d now kind paths hKind
    rw [Coalescer.handleEvent_fst, Coalescer.handleChanges_eq,
      Coalescer.handleAll_eq _ c fun arrival hArrival => ?_]
    · show c.handleTimed d ((classifyFrom d kind 0 paths).1.map _) = _
      rw [classifyFrom_flatMap hKind paths 0, List.map_flatMap, List.flatMap_map]
    · obtain ⟨path, -, rfl⟩ := List.mem_map.mp hArrival
      rfl

/-- A watched file moves to another root, and it is not said which of two paths is which end: the
old subscription is dropped before the new one is made, and both roots are dirty. -/
theorem moved_file_marks_both_roots :
    let d : Disk := ⟨[([.text "a"], .dir), ([.text "b"], .dir),
      ([.text "b", .text "g"], .file (.text "1"))], []⟩
    let c : Coalescer := .new ((({} : Registrar).subscribe ⟨"/a/f"⟩).1) [⟨"/a"⟩, ⟨"/b"⟩] 10
    let arrivals : List Arrival := [⟨d, 3, ⟨.rename .any, [.text "/a/f"]⟩⟩,
      ⟨d, 8, ⟨.rename .other, [.text "/b/g"]⟩⟩]
    (d.linkStat (.text "/a/f")).isOk = false ∧ (d.linkStat (.text "/b/g")).isOk = true ∧
      ToldRename ⟨"/a/f"⟩ ⟨"/b/g"⟩ (arrivals.map Arrival.event) ∧
      (c.handleAll arrivals).dirty = [⟨"/a"⟩, ⟨"/b"⟩] ∧
      (c.handleAll arrivals).registrar.engine.requests =
        [.subscribe "/b/g" true, .unsubscribe "/a/f", .subscribe "/a/f" true] ∧
      (c.handleEvent d 3 ⟨.remove, [.text "/a/f", .text "/a/e"]⟩).1 =
        c.handleAll [⟨d, 3, ⟨.remove, [.text "/a/f"]⟩⟩, ⟨d, 3, ⟨.remove, [.text "/a/e"]⟩⟩] := by
  intro d c arrivals
  have hGone : (d.linkStat (.text "/a/f")).isOk = false := by decide +kernel
  have hThere : (d.linkStat (.text "/b/g")).isOk = true := by decide +kernel
  have hTold : ToldRename ⟨"/a/f"⟩ ⟨"/b/g"⟩ (arrivals.map Arrival.event) :=
    .undirected_ends (.inl rfl) (.inr rfl)
  have hDisk : ∀ arrival ∈ arrivals, arrival.disk = d := by simp [arrivals]
  have hAlike := (renames_are_handled_alike.1 c d 3 ⟨"/a/f"⟩ ⟨"/b/g"⟩ arrivals hGone hThere hDisk
    hTold).1
  have hDirty := congrArg Coalescer.dirty hAlike
  have hRequests := congrArg (·.registrar.engine.requests) hAlike
  refine ⟨hGone, hThere, hTold, ?_, ?_, ?_⟩
  · refine hDirty.trans ?_
    decide +kernel
  · refine hRequests.trans ?_
    decide +kernel
  · exact renames_are_handled_alike.2 c d 3 .remove _ (by decide)

end TreeWatch
