import TreeWatch.Coalescer.Basic
import TreeWatch.Proofs.Attribution

/-!
# Marks: what handling an event does to the dirty roots and the deadline

A change *marks* a root when handling it gets as far as attributing it and a root is found
(`Coalescer.marked?`). Whether it does depends on the disk, the roots and the engine, and on
nothing that earlier marks left behind: not on the dirty roots and not on the deadline. This
module shows that marks are all there is to both of them.

Main results:

* `handleChange_dirty` / `handleChange_deadline` — a change with a mark adds the root to the dirty
  ones and moves the deadline; a change without one leaves both alone;
* `handleEvent_dirty` / `handleEvent_deadline` — the same for the marks of a whole event;
* `marked?_of_quiet` — changes that are ignored, that name a counter file, that cannot be
  attributed, or whose path is gone again do not mark;
* `mem_marks` — all others do, unless the engine crashes over the event.
-/

namespace TreeWatch

namespace Coalescer

variable {c : Coalescer} {d : Disk} {now : Nat}

/-- The root that a change marks, if handling it gets as far as marking one. -/
def marked? (c : Coalescer) (d : Disk) (change : Change) : Option Path :=
  if c.crashed ∨ isCounterArtifact change.path then none
  else
    match (c.apply d change).1 with
    | none => none
    | some applied =>
      if applied.crashed ∨ ¬ change.kind.qualifies then none
      else resolveRoot change.path c.roots

/-- The roots that changes mark when they are handled in order, repeats included. -/
def marksOfChanges (c : Coalescer) (d : Disk) (now : Nat) : List Change → List Path
  | [] => []
  | change :: rest =>
    (c.marked? d change).toList ++ marksOfChanges (c.handleChange d now change).1 d now rest

/-- The roots that an event marks, repeats included. -/
def marks (c : Coalescer) (d : Disk) (now : Nat) (event : Event) : List Path :=
  c.marksOfChanges d now (classify d event).1

/-! ## One change -/

/-- Subscriptions are all that tracking a path changes. -/
theorem track_frame {path : Path} {tracked : Coalescer} (h : (c.track d path).1 = some tracked) :
    ∃ registrar, tracked = { c with registrar } := by
  -- whatever is found, only the registrar is replaced
  unfold track at h
  cases hStat : d.linkStat path.native with
  | error fault =>
    rw [hStat] at h
    simp at h
  | ok entry =>
    rw [hStat] at h
    cases entry with
    | dir =>
      simp only [Option.some.injEq] at h
      exact ⟨_, h.symm⟩
    | file contents =>
      cases hSub : c.registrar.subscribe path with
      | mk registrar result =>
        cases result with
        | ok isNew =>
          simp only [hSub, Option.some.injEq] at h
          exact ⟨_, h.symm⟩
        | error e =>
          simp only [hSub, Option.some.injEq] at h
          exact ⟨_, h.symm⟩
    | link target =>
      simp only [Option.some.injEq] at h
      exact ⟨_, h.symm⟩
    | socket =>
      simp only [Option.some.injEq] at h
      exact ⟨_, h.symm⟩
    | device =>
      simp only [Option.some.injEq] at h
      exact ⟨_, h.symm⟩

/-- Subscriptions are all that applying a change changes. -/
theorem apply_frame {change : Change} {applied : Coalescer}
    (h : (c.apply d change).1 = some applied) : ∃ registrar, applied = { c with registrar } := by
  obtain ⟨path, kind⟩ := change
  cases kind with
  | created => exact track_frame h
  | removed =>
    simp only [apply, Option.some.injEq] at h
    exact ⟨_, h.symm⟩
  | modified =>
    simp only [apply, Option.some.injEq] at h
    exact ⟨_, h.symm⟩
  | ignored =>
    simp only [apply, Option.some.injEq] at h
    exact ⟨_, h.symm⟩

/-- What marking does, in terms of the root found. -/
theorem mark_fst (path : Path) :
    (c.mark now path).1 =
      match resolveRoot path c.roots with
      | none => c
      | some root =>
        { c with dirty := Path.addNew c.dirty root, deadline := some (now + c.grace.toNat) } := by
  unfold mark
  cases resolveRoot path c.roots <;> rfl

/-- What handling a change does: it may change the subscriptions, and if it marks a root, that
root is dirty and the deadline is a grace period away. -/
theorem handleChange_eq (c : Coalescer) (d : Disk) (now : Nat) (change : Change) :
    ∃ registrar, (c.handleChange d now change).1 =
      match c.marked? d change with
      | none => { c with registrar }
      | some root =>
        { c with
          registrar
          dirty := Path.addNew c.dirty root
          deadline := some (now + c.grace.toNat) } := by
  unfold handleChange marked?
  by_cases hCrash : c.crashed = true
  · exact ⟨c.registrar, by simp [hCrash]⟩
  by_cases hArtifact : isCounterArtifact change.path = true
  · exact ⟨c.registrar, by simp [hCrash, hArtifact]⟩
  -- up to here nothing was touched; what follows replaces the registrar at most
  rcases hApply : c.apply d change with ⟨applied, notices⟩
  cases applied with
  | none => exact ⟨c.registrar, by simp [hCrash, hArtifact]⟩
  | some applied =>
    obtain ⟨registrar, rfl⟩ := apply_frame (congrArg Prod.fst hApply)
    refine ⟨registrar, ?_⟩
    by_cases hGone : ({ c with registrar } : Coalescer).crashed = true
    · simp [hCrash, hArtifact, hGone]
    by_cases hQualifies : change.kind.qualifies = true
    · simp only [hCrash, hArtifact, hGone, hQualifies, Bool.false_eq_true, or_self, not_true,
        if_true, if_false, mark_fst]
    · simp [hCrash, hArtifact, hGone, hQualifies]

@[simp] theorem handleChange_roots (c : Coalescer) (d : Disk) (now : Nat) (change : Change) :
    (c.handleChange d now change).1.roots = c.roots := by
  obtain ⟨registrar, h⟩ := handleChange_eq c d now change
  rw [h]
  cases c.marked? d change <;> rfl

@[simp] theorem handleChange_grace (c : Coalescer) (d : Disk) (now : Nat) (change : Change) :
    (c.handleChange d now change).1.grace = c.grace := by
  obtain ⟨registrar, h⟩ := handleChange_eq c d now change
  rw [h]
  cases c.marked? d change <;> rfl

theorem handleChange_dirty (c : Coalescer) (d : Disk) (now : Nat) (change : Change) :
    (c.handleChange d now change).1.dirty =
      (c.marked? d change).toList.foldl Path.addNew c.dirty := by
  obtain ⟨registrar, h⟩ := handleChange_eq c d now change
  rw [h]
  cases c.marked? d change <;> rfl

theorem handleChange_deadline (c : Coalescer) (d : Disk) (now : Nat) (change : Change) :
    (c.handleChange d now change).1.deadline =
      if (c.marked? d change).toList = [] then c.deadline else some (now + c.grace.toNat) := by
  obtain ⟨registrar, h⟩ := handleChange_eq c d now change
  rw [h]
  cases c.marked? d change <;> simp

/-! ## Whole events -/

@[simp] theorem handleChanges_roots (changes : List Change) :
    ∀ c : Coalescer, (c.handleChanges d now changes).1.roots = c.roots := by
  induction changes with
  | nil => exact fun _ => rfl
  | cons change rest ih =>
    intro c
    rw [handleChanges]
    show ((c.handleChange d now change).1.handleChanges d now rest).1.roots = c.roots
    rw [ih, handleChange_roots]

@[simp] theorem handleChanges_grace (changes : List Change) :
    ∀ c : Coalescer, (c.handleChanges d now changes).1.grace = c.grace := by
  induction changes with
  | nil => exact fun _ => rfl
  | cons change rest ih =>
    intro c
    rw [handleChanges]
    show ((c.handleChange d now change).1.handleChanges d now rest).1.grace = c.grace
    rw [ih, handleChange_grace]

theorem handleChanges_dirty (changes : List Change) :
    ∀ c : Coalescer, (c.handleChanges d now changes).1.dirty =
      (c.marksOfChanges d now changes).foldl Path.addNew c.dirty := by
  induction changes with
  | nil => exact fun _ => rfl
  | cons change rest ih =>
    intro c
    -- the marks of the rest are those after the first change, as the dirty roots are
    rw [handleChanges, marksOfChanges, List.foldl_append, ← handleChange_dirty c d now change]
    exact ih _

theorem handleChanges_deadline (changes : List Change) :
    ∀ c : Coalescer, (c.handleChanges d now changes).1.deadline =
      if c.marksOfChanges d now changes = [] then c.deadline
      else some (now + c.grace.toNat) := by
  induction changes with
  | nil => exact fun _ => rfl
  | cons change rest ih =>
    intro c
    -- the last mark of an event moves the deadline; all of them happen now
    rw [handleChanges, marksOfChanges]
    show ((c.handleChange d now change).1.handleChanges d now rest).1.deadline = _
    rw [ih, handleChange_grace, handleChange_deadline]
    by_cases hRest : (c.handleChange d now change).1.marksOfChanges d now rest = []
    · simp [hRest]
    · simp [hRest]

theorem handleEvent_fst (c : Coalescer) (d : Disk) (now : Nat) (event : Event) :
    (c.handleEvent d now event).1 = (c.handleChanges d now (classify d event).1).1 :=
  rfl

@[simp] theorem handleEvent_roots (c : Coalescer) (d : Disk) (now : Nat) (event : Event) :
    (c.handleEvent d now event).1.roots = c.roots := by
  rw [handleEvent_fst, handleChanges_roots]

@[simp] theorem handleEvent_grace (c : Coalescer) (d : Disk) (now : Nat) (event : Event) :
    (c.handleEvent d now event).1.grace = c.grace := by
  rw [handleEvent_fst, handleChanges_grace]

/-- The roots an event marks join the dirty ones, each unless it is one already. -/
theorem handleEvent_dirty (c : Coalescer) (d : Disk) (now : Nat) (event : Event) :
    (c.handleEvent d now event).1.dirty = (c.marks d now event).foldl Path.addNew c.dirty := by
  rw [handleEvent_fst, handleChanges_dirty, marks]

/-- An event that marks a root moves the deadline, any other leaves it where it is. -/
theorem handleEvent_deadline (c : Coalescer) (d : Disk) (now : Nat) (event : Event) :
    (c.handleEvent d now event).1.deadline =
      if c.marks d now event = [] then c.deadline else some (now + c.grace.toNat) := by
  rw [handleEvent_fst, handleChanges_deadline, marks]

/-! ## Marks are roots -/

theorem marked?_resolved {change : Change} {root : Path} (h : c.marked? d change = some root) :
    resolveRoot change.path c.roots = some root := by
  unfold marked? at h
  split at h
  · simp at h
  · split at h
    · simp at h
    · split at h
      · simp at h
      · exact h

theorem marksOfChanges_resolved (changes : List Change) :
    ∀ c : Coalescer, ∀ root ∈ c.marksOfChanges d now changes,
      ∃ path, resolveRoot path c.roots = some root := by
  induction changes with
  | nil =>
    intro c root h
    simp [marksOfChanges] at h
  | cons change rest ih =>
    intro c root h
    rw [marksOfChanges, List.mem_append, Option.mem_toList] at h
    -- handling a change leaves the roots as they are
    rcases h with hHere | hRest
    · exact ⟨_, marked?_resolved hHere⟩
    · obtain ⟨path, hPath⟩ := ih _ root hRest
      rw [handleChange_roots] at hPath
      exact ⟨path, hPath⟩

theorem marks_resolved {event : Event} {root : Path} (h : root ∈ c.marks d now event) :
    ∃ path, resolveRoot path c.roots = some root :=
  marksOfChanges_resolved _ c root h

/-! ## Changes without a mark -/

/-- Changes that say nothing about what a root contains: of a kind that does not count, of a
counter file, of a path outside the roots, or of a path that appeared and is gone again. -/
inductive Quiet (roots : List Path) (d : Disk) (change : Change) : Prop where
  | ignored (h : change.kind = .ignored)
  | artifact (h : isCounterArtifact change.path = true)
  | unattributed (h : resolveRoot change.path roots = none)
  | vanished (h : change.kind = .created) (fault : Fault)
      (hStat : d.linkStat change.path.native = .error fault)

theorem marked?_of_quiet {change : Change} (h : Quiet c.roots d change) :
    c.marked? d change = none := by
  -- each reason stops the handling at a point of its own
  unfold marked?
  cases h with
  | ignored hKind =>
    rw [hKind]
    split
    · rfl
    · split
      · rfl
      · rw [if_pos (Or.inr (by simp [ChangeKind.qualifies]))]
  | artifact hArtifact => rw [if_pos (Or.inr hArtifact)]
  | unattributed hNone =>
    rw [hNone]
    split
    · rfl
    · split
      · rfl
      · split <;> rfl
  | vanished hKind fault hStat =>
    -- the entry is looked up before anything is marked
    have hApply : (c.apply d change).1 = none := by
      rw [apply, hKind]
      show (c.track d change.path).1 = none
      rw [track, hStat]
    rw [hApply]
    split <;> rfl

/-- An event of which every change is quiet marks nothing. -/
theorem marksOfChanges_of_quiet {changes : List Change} :
    ∀ {c : Coalescer}, (∀ change ∈ changes, Quiet c.roots d change) →
      c.marksOfChanges d now changes = [] := by
  induction changes with
  | nil => exact fun _ => rfl
  | cons change rest ih =>
    intro c h
    have hHere := marked?_of_quiet (h change (List.mem_cons_self ..))
    rw [marksOfChanges, hHere]
    exact ih fun other hOther => by
      rw [handleChange_roots]
      exact h other (List.mem_cons_of_mem _ hOther)

/-! ## Changes that count -/

/-- A change that a root has to be bumped for: of a kind that counts, of a path in the root, and of
no counter file. What appeared has to be there still. -/
structure Counts (roots : List Path) (d : Disk) (change : Change) (root : Path) : Prop where
  qualifies : change.kind.qualifies = true
  ordinary : isCounterArtifact change.path = false
  there : change.kind = .created → (d.linkStat change.path.native).isOk = true
  resolved : resolveRoot change.path roots = some root

/-- After the engine has crashed nothing is handled any more. -/
theorem handleChanges_crashed (h : c.crashed = true) (changes : List Change) :
    (c.handleChanges d now changes).1 = c := by
  induction changes with
  | nil => rfl
  | cons change rest ih =>
    have hHere : (c.handleChange d now change).1 = c := by rw [handleChange, if_pos h]
    show ((c.handleChange d now change).1.handleChanges d now rest).1 = c
    rw [hHere, ih]

/-- What has not crashed in the end had not crashed before. -/
theorem uncrashed_of_handleChanges {changes : List Change}
    (h : (c.handleChanges d now changes).1.crashed = false) : c.crashed = false := by
  by_contra hCrash
  rw [handleChanges_crashed (by simpa using hCrash)] at h
  exact hCrash h

/-- Applying a change comes to nothing only if it is over. -/
theorem apply_ne_none {change : Change}
    (h : change.kind = .created → (d.linkStat change.path.native).isOk = true) :
    (c.apply d change).1 ≠ none := by
  unfold apply
  cases hKind : change.kind with
  | created =>
    show (c.track d change.path).1 ≠ none
    unfold track
    cases hStat : d.linkStat change.path.native with
    | error fault =>
      rw [hStat] at h
      cases h hKind
    | ok entry =>
      cases entry with
      | file contents =>
        rcases c.registrar.subscribe change.path with ⟨registrar, _ | _⟩ <;> simp
      | dir | link | socket | device => simp
  | removed | modified | ignored => simp

/-- A change that counts marks its root, unless the engine crashes over it. -/
theorem marked?_of_counts {change : Change} {root : Path} (hCounts : Counts c.roots d change root)
    (hAlive : (c.handleChange d now change).1.crashed = false) :
    c.marked? d change = some root := by
  unfold handleChange at hAlive
  unfold marked?
  by_cases hCrash : c.crashed = true
  · rw [if_pos hCrash, hCrash] at hAlive
    cases hAlive
  rw [if_neg hCrash, if_neg (by simp [hCounts.ordinary])] at hAlive
  rw [if_neg (by simp [hCrash, hCounts.ordinary])]
  rcases hApply : c.apply d change with ⟨applied | applied, notices⟩
  · exact absurd (by rw [hApply]) (apply_ne_none (c := c) hCounts.there)
  · rw [hApply] at hAlive
    dsimp only at hAlive ⊢
    by_cases hGone : applied.crashed = true
    · rw [if_pos hGone, hGone] at hAlive
      cases hAlive
    · rw [if_neg (by simp [hGone, hCounts.qualifies])]
      exact hCounts.resolved

/-- A change that counts marks its root wherever it stands among others, unless the engine crashes
over one of them. -/
theorem mem_marksOfChanges {change : Change} {root : Path} {changes : List Change} :
    ∀ {c : Coalescer}, change ∈ changes → Counts c.roots d change root →
      (c.handleChanges d now changes).1.crashed = false →
      root ∈ c.marksOfChanges d now changes := by
  induction changes with
  | nil =>
    intro c hChange
    cases hChange
  | cons first rest ih =>
    intro c hChange hCounts hAlive
    have hRest : ((c.handleChange d now first).1.handleChanges d now rest).1.crashed = false :=
      hAlive
    have hFirst : (c.handleChange d now first).1.crashed = false :=
      uncrashed_of_handleChanges hRest
    rw [marksOfChanges, List.mem_append, Option.mem_toList]
    rcases List.mem_cons.mp hChange with rfl | hLater
    · exact Or.inl (marked?_of_counts hCounts hFirst)
    · refine Or.inr (ih hLater ?_ hRest)
      rwa [handleChange_roots]

/-- An event marks the root of each of its changes that counts, unless the engine crashes over
one of them. -/
theorem mem_marks {event : Event} {change : Change} {root : Path}
    (hChange : change ∈ (classify d event).1) (hCounts : Counts c.roots d change root)
    (hAlive : (c.handleEvent d now event).1.crashed = false) : root ∈ c.marks d now event :=
  mem_marksOfChanges hChange hCounts hAlive

end Coalescer

end TreeWatch
