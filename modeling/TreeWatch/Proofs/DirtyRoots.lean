import TreeWatch.Proofs.Artifacts
import TreeWatch.Proofs.Dedup
import TreeWatch.Proofs.Rounds

/-!
# What becomes dirty

Between two flushes the dirty roots and the deadline tell what the events told that were handled
since, and nothing else. Which root a path of an event touches can be read off the event, the disk
and the list of roots (`Arrival.touches`). What is subscribed, what the engine refuses and how far a
walk gets do not come into it: a change is marked whether or not it could be subscribed.

Main results:
  * `Coalescer.marked?_eq`: the root that a change marks is the one that it touches
  * `Coalescer.handleDeliveries_spec`: so it is for any sequence of events
  * `dirty_roots_follow_events`: dirty roots and deadline after a flush
-/

namespace TreeWatch

/-! ## What an event touches -/

/-- The root that a change touches: that of its path, if the kind of the change counts, the path
names no counter file, and what appeared can be looked up still. -/
def Change.root? (d : Disk) (roots : List Path) (change : Change) : Option Path :=
  if isCounterArtifact change.path ∨ ¬ change.kind.qualifies ∨
      change.kind = .created ∧ ¬ (d.linkStat change.path.native).isOk then none
  else resolveRoot change.path roots

namespace Arrival

/-- The change that an event reports at one of its paths, counted from 0, if the path is text. -/
def change? (a : Arrival) : ByteString × Nat → Option Change
  | (.text s, index) => some ⟨⟨s⟩, a.event.kind.change a.disk ⟨s⟩ index⟩
  | (.raw _ _, _) => none

/-- The roots that an event touches, path by path and with repeats, each with the time. -/
def touches (a : Arrival) (roots : List Path) : List (Path × Nat) :=
  (a.event.paths.zipIdx.filterMap fun path => (a.change? path).bind (Change.root? a.disk roots)).map
    fun root => (root, a.now)

end Arrival

theorem resolveRoot_of_root? {d : Disk} {roots : List Path} {change : Change} {root : Path}
    (h : change.root? d roots = some root) : resolveRoot change.path roots = some root := by
  unfold Change.root? at h
  split at h
  · cases h
  · exact h

/-- A change touches a root exactly if it counts for it. -/
theorem counts_of_root? {d : Disk} {roots : List Path} {change : Change} {root : Path}
    (h : change.root? d roots = some root) : Coalescer.Counts roots d change root := by
  have hResolved := resolveRoot_of_root? h
  unfold Change.root? at h
  split at h
  · cases h
  · next hCounts =>
    simp only [not_or, not_and, not_not] at hCounts
    obtain ⟨hOrdinary, hQualifies, hThere⟩ := hCounts
    exact ⟨hQualifies, by simpa using hOrdinary, hThere, hResolved⟩

/-- A change that touches no root is quiet. -/
theorem quiet_of_root? {d : Disk} {roots : List Path} {change : Change}
    (h : change.root? d roots = none) : Coalescer.Quiet roots d change := by
  unfold Change.root? at h
  split at h
  · next hReason =>
    rcases hReason with hArtifact | hKind | ⟨hCreated, hGone⟩
    · exact .artifact hArtifact
    · refine .ignored ?_
      cases hChange : change.kind with
      | ignored => rfl
      | created | removed | modified => simp [hChange, ChangeKind.qualifies] at hKind
    · cases hStat : d.linkStat change.path.native with
      | error fault => exact .vanished hCreated fault hStat
      | ok entry => exact absurd (by rw [hStat]; rfl) hGone
  · exact .unattributed h

/-- An event is told apart path by path. -/
theorem classifyFrom_eq (a : Arrival) (paths : List ByteString) : ∀ index : Nat,
    (classifyFrom a.disk a.event.kind index paths).1 =
      (paths.zipIdx index).filterMap a.change? := by
  induction paths with
  | nil => exact fun _ => rfl
  | cons path rest ih =>
    intro index
    rw [List.zipIdx_cons]
    cases path with
    | text s => exact congrArg _ (ih (index + 1))
    | raw bytes notText => exact ih (index + 1)

theorem Arrival.touches_eq (a : Arrival) (roots : List Path) :
    (a.touches roots).map Prod.fst =
      (classify a.disk a.event).1.filterMap (Change.root? a.disk roots) := by
  unfold touches classify
  rw [classifyFrom_eq, List.filterMap_filterMap, List.map_map]
  exact List.map_id _

theorem Arrival.resolved_of_touches {a : Arrival} {roots : List Path} {root : Path}
    (h : root ∈ (a.touches roots).map Prod.fst) : ∃ path, resolveRoot path roots = some root := by
  rw [touches_eq] at h
  obtain ⟨change, -, hRoot⟩ := List.mem_filterMap.mp h
  exact ⟨change.path, resolveRoot_of_root? hRoot⟩

/-! ## What handling an event marks -/

namespace Coalescer

variable {c : Coalescer} {d : Disk} {now : Nat}

/-- **A change** marks the root that it touches, unless the engine crashes over it. -/
theorem marked?_eq {change : Change} (hAlive : (c.handleChange d now change).1.crashed = false) :
    c.marked? d change = change.root? d c.roots := by
  cases hRoot : change.root? d c.roots with
  | none => exact marked?_of_quiet (quiet_of_root? hRoot)
  | some root => exact marked?_of_counts (counts_of_root? hRoot) hAlive

theorem marksOfChanges_eq (changes : List Change) : ∀ {c : Coalescer},
    (c.handleChanges d now changes).1.crashed = false →
      c.marksOfChanges d now changes = changes.filterMap (Change.root? d c.roots) := by
  induction changes with
  | nil => exact fun _ => rfl
  | cons change rest ih =>
    intro c hAlive
    have hRest : ((c.handleChange d now change).1.handleChanges d now rest).1.crashed = false :=
      hAlive
    -- the changes before went without a crash, too
    have hFirst := marked?_eq (uncrashed_of_handleChanges hRest)
    rw [marksOfChanges, ih hRest, hFirst, handleChange_roots]
    cases hRoot : change.root? d c.roots with
    | none => rw [List.filterMap_cons_none hRoot]; rfl
    | some root => rw [List.filterMap_cons_some hRoot]; rfl

/-- An event marks the roots that it touches. -/
theorem marks_eq (a : Arrival)
    (hAlive : (c.handleEvent a.disk a.now a.event).1.crashed = false) :
    c.marks a.disk a.now a.event = (a.touches c.roots).map Prod.fst := by
  rw [Arrival.touches_eq]
  exact marksOfChanges_eq _ hAlive

end Coalescer

/-! ## Sequences of events -/

/-- An event as it is delivered: when, on which disk, and by which rules the engine takes requests
while it is handled. -/
structure Delivery extends Arrival where
  rules : Rules

namespace Coalescer

/-- The coalescer after an event was delivered. -/
def handleDelivery (c : Coalescer) (delivery : Delivery) : Coalescer :=
  ({ c with registrar := c.registrar.withRules delivery.rules }.handleEvent delivery.disk
    delivery.now delivery.event).1

/-- The coalescer after events were delivered one after another. -/
def handleDeliveries (c : Coalescer) (deliveries : List Delivery) : Coalescer :=
  deliveries.foldl handleDelivery c

variable {c : Coalescer}

@[simp] theorem handleDelivery_roots (delivery : Delivery) :
    (c.handleDelivery delivery).roots = c.roots :=
  handleEvent_roots _ _ _ _

@[simp] theorem handleDelivery_grace (delivery : Delivery) :
    (c.handleDelivery delivery).grace = c.grace :=
  handleEvent_grace _ _ _ _

theorem uncrashed_of_handleDeliveries (deliveries : List Delivery) : ∀ {c : Coalescer},
    (c.handleDeliveries deliveries).crashed = false → c.crashed = false := by
  induction deliveries with
  | nil => exact fun h => h
  | cons delivery rest ih =>
    intro c h
    -- other rules do not undo a crash
    have hNext : (c.handleDelivery delivery).crashed = false := ih h
    have hBefore : ({ c with registrar := c.registrar.withRules delivery.rules } :
        Coalescer).crashed = false := uncrashed_of_handleChanges hNext
    exact hBefore

/-- One event: the roots that it touches join the dirty ones, and if there are any the deadline is a
grace period away. -/
theorem handleDelivery_spec {delivery : Delivery}
    (hAlive : (c.handleDelivery delivery).crashed = false) :
    (c.handleDelivery delivery).dirty =
        ((delivery.touches c.roots).map Prod.fst).foldl Path.addNew c.dirty ∧
      (c.handleDelivery delivery).deadline =
        ((delivery.touches c.roots).getLast?.map fun touch => touch.2 + c.grace.toNat).or
          c.deadline := by
  have hMarks := marks_eq (c := { c with registrar := c.registrar.withRules delivery.rules })
    delivery.toArrival hAlive
  unfold handleDelivery
  rw [handleEvent_dirty, handleEvent_deadline, hMarks]
  refine ⟨rfl, ?_⟩
  -- all that the event touches it touches at its time
  rcases List.eq_nil_or_concat (delivery.touches c.roots) with hNone | ⟨front, last, hSome⟩
  · rw [hNone]
    rfl
  · have hLast : last ∈ delivery.touches c.roots := by rw [hSome]; simp
    obtain ⟨root, -, rfl⟩ := List.mem_map.mp hLast
    rw [hSome]
    simp

/-- **Any sequence of events**: the roots they touch join the dirty ones in order, and the last
touch moves the deadline. -/
theorem handleDeliveries_spec (deliveries : List Delivery) : ∀ {c : Coalescer},
    (c.handleDeliveries deliveries).crashed = false →
      (c.handleDeliveries deliveries).dirty =
          ((deliveries.flatMap (·.touches c.roots)).map Prod.fst).foldl Path.addNew c.dirty ∧
        (c.handleDeliveries deliveries).deadline =
          ((deliveries.flatMap (·.touches c.roots)).getLast?.map
            fun touch => touch.2 + c.grace.toNat).or c.deadline := by
  -- by induction on the events, for any coalescer: the next event finds what the first one left
  induction deliveries with
  | nil => exact fun _ => ⟨rfl, rfl⟩
  | cons delivery rest ih =>
    intro c hAlive
    have hRest : ((c.handleDelivery delivery).handleDeliveries rest).crashed = false := hAlive
    obtain ⟨hDirty, hDeadline⟩ := handleDelivery_spec (uncrashed_of_handleDeliveries rest hRest)
    obtain ⟨hDirties, hDeadlines⟩ := ih hRest
    rw [handleDelivery_roots, hDirty] at hDirties
    rw [handleDelivery_roots, handleDelivery_grace, hDeadline] at hDeadlines
    rw [List.flatMap_cons, List.map_append, List.foldl_append, List.getLast?_append,
      Option.map_or, Option.or_assoc]
    exact ⟨hDirties, hDeadlines⟩

end Coalescer

/-! ## Main result -/

/--
**What becomes dirty.** Take a coalescer without dirty roots and without a deadline, as it is at the
start and after a flush, with any roots and any registrar, and deliver events to it: of any kinds
and with any paths, each on a disk of its own, while the engine refuses what it will. Unless the
engine crashes,
* the dirty roots are those that the events touched, in the order in which they first did, and no
  two of them have the same components;
* the deadline is a grace period after the last touch, and there is none if there was no touch.
-/
theorem dirty_roots_follow_events {c : Coalescer} {deliveries : List Delivery}
    (hClean : c.dirty = []) (hIdle : c.deadline = none)
    (hAlive : (c.handleDeliveries deliveries).crashed = false) :
    (c.handleDeliveries deliveries).dirty =
        ((deliveries.flatMap (·.touches c.roots)).map Prod.fst).eraseDups ∧
      (c.handleDeliveries deliveries).dirty.Pairwise (fun p q => ¬ p.SameAs q) ∧
      (c.handleDeliveries deliveries).deadline =
        (deliveries.flatMap (·.touches c.roots)).getLast?.map
          fun touch => touch.2 + c.grace.toNat := by
  obtain ⟨hDirty, hDeadline⟩ := Coalescer.handleDeliveries_spec deliveries hAlive
  rw [hClean] at hDirty
  rw [hIdle, Option.or_none] at hDeadline
  have hResolved : ∀ root ∈ (deliveries.flatMap (·.touches c.roots)).map Prod.fst,
      ∃ path, resolveRoot path c.roots = some root := by
    intro root hRoot
    rw [List.map_flatMap] at hRoot
    obtain ⟨delivery, -, hTouch⟩ := List.mem_flatMap.mp hRoot
    exact Arrival.resolved_of_touches hTouch
  refine ⟨?_, ?_, hDeadline⟩
  · rw [hDirty]
    exact Path.foldl_addNew_eraseDups (List.forall_mem_nil _) hResolved
  · rw [hDirty]
    exact Path.dedup_pairwise _

/-- A root within another one. A file that appears in the inner one is marked although the engine
refuses it, and so is one that is gone from the outer one; a file that is renamed away under a name
that is no text, a counter and a change of metadata are not. -/
theorem sample_roots_follow_events :
    let disk : Disk := ⟨[([.text "a"], .dir), ([.text "a", .text "b"], .dir),
      ([.text "a", .text "b", .text "f"], .file (.text ""))], []⟩
    let refusing : Rules := { refuses := fun _ => true }
    let deliveries : List Delivery :=
      [⟨⟨disk, 1, ⟨.create, [.text "/a/b/f"]⟩⟩, refusing⟩,
        ⟨⟨disk, 2, ⟨.rename .both, [.ofBytes [0xFF], .text "/a/g"]⟩⟩, {}⟩,
        ⟨⟨disk, 3, ⟨.contents, [.text "/a/GPT.ini"]⟩⟩, {}⟩,
        ⟨⟨disk, 4, ⟨.rename .other, [.text "/a/gone", .text "/a/b"]⟩⟩, {}⟩,
        ⟨⟨disk, 5, ⟨.metadata, [.text "/a/b/f"]⟩⟩, {}⟩]
    let c : Coalescer := .new {} [⟨"/a"⟩, ⟨"/a/b/"⟩] 10
    (c.handleDeliveries deliveries).crashed = false ∧
      (deliveries.flatMap (·.touches c.roots)) =
        [(⟨"/a/b/"⟩, 1), (⟨"/a"⟩, 4), (⟨"/a/b/"⟩, 4)] ∧
      (c.handleDeliveries deliveries).dirty = [⟨"/a/b/"⟩, ⟨"/a"⟩] ∧
      (c.handleDeliveries deliveries).deadline = some 14 := by
  intro disk refusing deliveries c
  have hAlive : (c.handleDeliveries deliveries).crashed = false := by decide +kernel
  have hTouches : (deliveries.flatMap (·.touches c.roots)) =
      [(⟨"/a/b/"⟩, 1), (⟨"/a"⟩, 4), (⟨"/a/b/"⟩, 4)] := by decide +kernel
  obtain ⟨hDirty, -, hDeadline⟩ := dirty_roots_follow_events rfl rfl hAlive
  rw [hTouches] at hDirty hDeadline
  exact ⟨hAlive, hTouches, hDirty, hDeadline⟩

end TreeWatch
