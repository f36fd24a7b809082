import TreeWatch.Coalescer.Loop
import TreeWatch.Proofs.Marks

/-!
# Runs of the event loop

A run is the list of turns that the loop made, each with the surroundings it was made in: the
clock, the disk and what may go wrong with it (`Round`). Between two turns the rest of the world
is free to act (`Loop.Meanwhile`): messages are delivered, the channel is closed, the loop is told
to stop, the engine comes to take requests by other rules or to hold other paths. What the loop
owns, its roots, its dirty roots and its deadline, only a turn changes.

`Run roots grace rounds fate` says that a loop over `roots`, fresh at its start, can have made
`rounds` and be at `fate` now: still going, returned, or over because the engine crashed. No order
of messages, errors, deadlines and orders to stop is left out.

The marks of a run are counted by *flush interval* (`Ledger`): what was marked since the last
flush, and the intervals that earlier flushes closed.

Main results:

* `Run.settled` — the invariant: the dirty roots are the marks since the last flush without
  repeats, and a deadline is armed exactly when there are such marks;
* `Round.inTurn` — what a round bumps is bumped one root after another, and that is all it does to
  the disk;
* `Run.calls_eq` — a flush bumps the marks since the last flush, without repeats;
* `Run.flushes_iff_of_left` — on the way out there is a flush exactly if there are such marks;
* `Run.current_of_returned` — a run that returned left no mark behind.
-/

namespace TreeWatch

/-! ## Rounds -/

/-- A turn of the loop, with what it was made in. -/
structure Round where
  loop : Loop
  hazard : Hazards
  disk : Disk
  now : Nat
  turn : Turn
  taken : loop.turn hazard disk now = some turn

/-- Where a loop stands. -/
inductive Fate where
  | going (loop : Loop)
  | returned
  /-- The engine crashed, and the loop with it. -/
  | crashed

/-- The bumps of an action, if it was a flush. -/
def Action.bumps? : Action → Option (BumpedAll Disk)
  | .received _ => none
  | .flushed bumps => some bumps
  | .left bumps => bumps

namespace Round

/-- The roots that were marked, repeats included. -/
def marks (r : Round) : List Path :=
  match r.turn.action with
  | .received (.event event) => r.loop.coalescer.marks r.disk r.now event
  | _ => []

/-- Whether there was a flush, on the way out or because the deadline was over. -/
def flushes (r : Round) : Bool :=
  r.turn.action.bumps?.isSome

/-- The bumps that were made, in order, each with its root and what came of it. -/
def results (r : Round) : List (Path × Except WatchError UInt64) :=
  (r.turn.action.bumps?.map BumpedAll.results).getD []

/-- The roots whose counters were bumped, one for each bump, in order. -/
def calls (r : Round) : List Path :=
  r.results.map Prod.fst

/-- Whether the loop was left. -/
def leaves (r : Round) : Bool :=
  match r.turn.action with
  | .left _ => true
  | _ => false

/-- Whether the deadline was over, so that there was a flush. -/
def expires (r : Round) : Bool :=
  match r.turn.action with
  | .flushed _ => true
  | _ => false

/-- Where the loop stands after the turn. -/
def fate (r : Round) : Fate :=
  if r.turn.loop.coalescer.crashed then .crashed
  else if r.leaves then .returned
  else .going r.turn.loop

end Round

/-- What may happen to a loop between two turns. Whatever the engine holds and by whatever rules
it takes requests, it does not crash by itself. -/
structure Loop.Meanwhile (before after : Loop) : Prop where
  engine : ∃ engine, engine.crash = before.coalescer.registrar.engine.crash ∧
    after.coalescer =
      { before.coalescer with registrar := { before.coalescer.registrar with engine } }
  delivered : before.inbox <+: after.inbox
  closed : before.closed = true → after.closed = true ∧ after.inbox = before.inbox
  cancelled : before.cancelled = true → after.cancelled = true

/-- The runs of loops over given roots. -/
inductive Run (roots : List Path) (grace : UInt64) : List Round → Fate → Prop where
  | start {registrar : Registrar} {inbox : List Message} {closed cancelled : Bool} :
      Run roots grace [] (.going ⟨.new registrar roots grace, inbox, closed, cancelled⟩)
  | wait {rounds : List Round} {before after : Loop} :
      Run roots grace rounds (.going before) → before.Meanwhile after →
      Run roots grace rounds (.going after)
  | turn {rounds : List Round} (r : Round) :
      Run roots grace rounds (.going r.loop) → Run roots grace (rounds ++ [r]) r.fate

/-! ## Flush intervals -/

/-- The marks of a run by flush interval. -/
structure Ledger where
  /-- The marks of the intervals that a flush ended, oldest first. -/
  closed : List (List Path) := []
  /-- The marks since the last flush. -/
  current : List Path := []

/-- The ledger with one more round. -/
def Ledger.add (a : Ledger) (r : Round) : Ledger :=
  if r.flushes then ⟨a.closed ++ [a.current], []⟩ else ⟨a.closed, a.current ++ r.marks⟩

/-- The ledger of the rounds of a run. -/
def ledger (rounds : List Round) : Ledger :=
  rounds.foldl Ledger.add {}

/-- The marks of a run, flush interval by flush interval; the last one has not ended. -/
def intervals (rounds : List Round) : List (List Path) :=
  (ledger rounds).closed ++ [(ledger rounds).current]

theorem ledger_concat (rounds : List Round) (r : Round) :
    ledger (rounds ++ [r]) = (ledger rounds).add r := by
  rw [ledger, List.foldl_append]
  rfl

/-- Marks stay in the current interval until a flush. -/
theorem mem_current_append {before after : List Round} {root : Path}
    (h : root ∈ (ledger before).current) (hAfter : ∀ r ∈ after, r.flushes = false) :
    root ∈ (ledger (before ++ after)).current := by
  induction after using List.reverseRecOn with
  | nil => simpa using h
  | append_singleton init last ih =>
    rw [← List.append_assoc, ledger_concat, Ledger.add, hAfter last (by simp)]
    exact List.mem_append_left _ (ih fun r hr => hAfter r (List.mem_append_left _ hr))

/-- What a round marks is in the current interval after it. -/
theorem mem_current_of_mem_marks {before : List Round} {r : Round} {root : Path}
    (h : root ∈ r.marks) : root ∈ (ledger (before ++ [r])).current := by
  have hNoFlush : r.flushes = false := by
    unfold Round.marks at h
    unfold Round.flushes
    cases hAction : r.turn.action with
    | received message => rfl
    | flushed bumps =>
      rw [hAction] at h
      simp at h
    | left bumps =>
      rw [hAction] at h
      simp at h
  rw [ledger_concat, Ledger.add, hNoFlush]
  exact List.mem_append_right _ h

/-! ## One round -/

namespace Round

variable {r : Round}

/-- What a turn can have done: everything it depends on, and everything it did. -/
inductive Did (r : Round) : Prop where
  | event (event : Event) (rest : List Message)
      (hGoing : r.loop.cancelled = false)
      (hInbox : r.loop.inbox = .event event :: rest)
      (hAction : r.turn.action = .received (.event event))
      (hLoop : r.turn.loop =
        { r.loop with
          coalescer := (r.loop.coalescer.handleEvent r.disk r.now event).1, inbox := rest })
      (hDisk : r.turn.disk = r.disk)
  | failure (error : EngineError) (rest : List Message)
      (hGoing : r.loop.cancelled = false)
      (hInbox : r.loop.inbox = .failure error :: rest)
      (hAction : r.turn.action = .received (.failure error))
      (hLoop : r.turn.loop = { r.loop with inbox := rest })
      (hDisk : r.turn.disk = r.disk)
  | expired
      (hGoing : r.loop.cancelled = false)
      (hInbox : r.loop.inbox = [])
      (hOpen : r.loop.closed = false)
      (hDue : r.loop.isDue r.now = true)
      (hAction : r.turn.action = .flushed (bumpAll r.hazard r.disk r.loop.coalescer.dirty))
      (hLoop : r.turn.loop =
        { r.loop with coalescer := { r.loop.coalescer with dirty := [], deadline := none } })
      (hDisk : r.turn.disk = (bumpAll r.hazard r.disk r.loop.coalescer.dirty).disk)
  | leftClean
      (hStop : r.loop.cancelled = true ∨ r.loop.inbox = [] ∧ r.loop.closed = true)
      (hIdle : r.loop.coalescer.deadline = none)
      (hAction : r.turn.action = .left none)
      (hLoop : r.turn.loop = r.loop)
      (hDisk : r.turn.disk = r.disk)
  | leftFlushing
      (hStop : r.loop.cancelled = true ∨ r.loop.inbox = [] ∧ r.loop.closed = true)
      (hArmed : r.loop.coalescer.deadline.isSome = true)
      (hAction : r.turn.action = .left (some (bumpAll r.hazard r.disk r.loop.coalescer.dirty)))
      (hLoop : r.turn.loop =
        { r.loop with coalescer := { r.loop.coalescer with dirty := [], deadline := none } })
      (hDisk : r.turn.disk = (bumpAll r.hazard r.disk r.loop.coalescer.dirty).disk)

/-- Leaving flushes exactly if a flush is due. -/
theorem did_of_leave {notices : List Notice}
    (hStop : r.loop.cancelled = true ∨ r.loop.inbox = [] ∧ r.loop.closed = true)
    (hTurn : r.turn = r.loop.leave r.hazard r.disk notices) : r.Did := by
  unfold Loop.leave at hTurn
  cases hDeadline : r.loop.coalescer.deadline with
  | none =>
    rw [hDeadline, if_neg (by simp)] at hTurn
    exact .leftClean hStop hDeadline (by rw [hTurn]) (by rw [hTurn]) (by rw [hTurn])
  | some due =>
    rw [hDeadline, if_pos (by simp)] at hTurn
    exact .leftFlushing hStop (by rw [hDeadline]; rfl) (by rw [hTurn]; rfl) (by rw [hTurn]; rfl)
      (by rw [hTurn]; rfl)

theorem did (r : Round) : r.Did := by
  have h := r.taken
  unfold Loop.turn at h
  -- an order to stop comes before everything else
  by_cases hCancelled : r.loop.cancelled = true
  · rw [if_pos hCancelled, Option.some.injEq] at h
    exact did_of_leave (Or.inl hCancelled) h.symm
  rw [if_neg hCancelled] at h
  have hGoing : r.loop.cancelled = false := by simpa using hCancelled
  -- the loop goes on: a message first, then the deadline
  cases hInbox : r.loop.inbox with
  | cons message rest =>
    rw [hInbox] at h
    simp only [Option.some.injEq] at h
    cases message with
    | event event =>
      exact .event event rest hGoing hInbox (by rw [← h]; rfl) (by rw [← h]; rfl) (by rw [← h]; rfl)
    | failure error =>
      exact .failure error rest hGoing hInbox (by rw [← h]; rfl) (by rw [← h]; rfl)
        (by rw [← h]; rfl)
  | nil =>
    rw [hInbox] at h
    -- nothing is waiting: a closed channel ends the loop, an open one leaves the deadline
    by_cases hClosed : r.loop.closed = true
    · simp only [hClosed, if_true, Option.some.injEq] at h
      exact did_of_leave (Or.inr ⟨hInbox, hClosed⟩) h.symm
    · have hOpen : r.loop.closed = false := by simpa using hClosed
      by_cases hDue : r.loop.isDue r.now = true
      · simp only [hOpen, hDue, Bool.false_eq_true, if_false, if_true, Option.some.injEq] at h
        exact .expired hGoing hInbox hOpen hDue (by rw [← h]; rfl) (by rw [← h]; rfl)
          (by rw [← h]; rfl)
      · simp [hOpen, hDue] at h

end Round

/-- One entry for each root, in the order given. -/
theorem bumpAll_roots (h : Hazards) (roots : List Path) :
    ∀ d : Disk, (bumpAll h d roots).results.map Prod.fst = roots := by
  induction roots with
  | nil => exact fun _ => rfl
  | cons root rest ih =>
    intro d
    rw [(bumpAll_cons h d root rest).2, List.map_cons, ih]

/-- Bumps one after another, each on the disk that the one before it left: each entry is a bump of
its root with what came of it. -/
inductive BumpedInTurn (h : Hazards) : Disk → List (Path × Except WatchError UInt64) → Disk → Prop
  | none (d : Disk) : BumpedInTurn h d [] d
  | next {d last : Disk} {root : Path} {rest : List (Path × Except WatchError UInt64)}
      (hRest : BumpedInTurn h (bump (h root) d root).disk rest last) :
      BumpedInTurn h d ((root, (bump (h root) d root).result) :: rest) last

theorem bumpAll_inTurn (h : Hazards) (roots : List Path) :
    ∀ d : Disk, BumpedInTurn h d (bumpAll h d roots).results (bumpAll h d roots).disk := by
  induction roots with
  | nil => exact .none
  | cons root rest ih =>
    intro d
    obtain ⟨hDisk, hResults⟩ := bumpAll_cons h d root rest
    rw [hDisk, hResults]
    exact .next (ih _)

/-- **What a round does to the disk** are its bumps, one after another. -/
theorem Round.inTurn (r : Round) : BumpedInTurn r.hazard r.disk r.results r.turn.disk := by
  unfold Round.results
  cases r.did with
  | event event rest hGoing hInbox hAction hLoop hDisk =>
    rw [hAction, hDisk]
    exact .none _
  | failure error rest hGoing hInbox hAction hLoop hDisk =>
    rw [hAction, hDisk]
    exact .none _
  | expired hGoing hInbox hOpen hDue hAction hLoop hDisk =>
    rw [hAction, hDisk]
    exact bumpAll_inTurn ..
  | leftClean hStop hIdle hAction hLoop hDisk =>
    rw [hAction, hDisk]
    exact .none _
  | leftFlushing hStop hArmed hAction hLoop hDisk =>
    rw [hAction, hDisk]
    exact bumpAll_inTurn ..

/-! ## The invariant -/

/-- Adding a root that agrees with a kept one only if it is that one. -/
theorem Path.addNew_eraseDups {kept : List Path} {root : Path}
    (h : ∀ other ∈ kept, other.SameAs root → other = root) :
    addNew kept.eraseDups root = (kept ++ [root]).eraseDups := by
  rw [List.eraseDups_append, addNew]
  by_cases hMem : root ∈ kept
  · have hAny : (kept.eraseDups.any fun other => decide (other.SameAs root)) = true :=
      List.any_eq_true.mpr ⟨root, List.mem_eraseDups.mpr hMem, by simp [SameAs]⟩
    rw [if_pos hAny]
    simp [List.removeAll, hMem]
  · have hAny : (kept.eraseDups.any fun other => decide (other.SameAs root)) = false := by
      rw [List.any_eq_false]
      intro other hOther
      rw [List.mem_eraseDups] at hOther
      have hNot : ¬ other.SameAs root := fun hSame => hMem (h other hOther hSame ▸ hOther)
      simpa using hNot
    -- a root that is not there has no other spelling there either
    rw [if_neg (by simp [hAny])]
    simp [List.removeAll, hMem, List.eraseDups_cons]

theorem Path.foldl_addNew_eraseDups {roots marks : List Path} :
    ∀ {kept : List Path},
    (∀ root ∈ kept, ∃ path, resolveRoot path roots = some root) →
    (∀ root ∈ marks, ∃ path, resolveRoot path roots = some root) →
    marks.foldl addNew kept.eraseDups = (kept ++ marks).eraseDups := by
  induction marks with
  | nil =>
    intro kept _ _
    simp
  | cons root rest ih =>
    intro kept hKept hMarks
    obtain ⟨path, hRoot⟩ := hMarks root (List.mem_cons_self ..)
    -- two roots that were resolved and agree are spelled alike, so the new one is known or is new
    have hAdd : addNew kept.eraseDups root = (kept ++ [root]).eraseDups := by
      apply addNew_eraseDups
      intro other hOther hSame
      obtain ⟨_, hResolved⟩ := hKept other hOther
      exact resolveRoot_eq_of_sameAs hResolved hRoot hSame
    rw [List.foldl_cons, hAdd, ih, List.append_assoc, List.singleton_append]
    · intro other hOther
      rcases List.mem_append.mp hOther with hOld | hNew
      · exact hKept other hOld
      · rw [List.mem_singleton] at hNew
        exact hNew ▸ ⟨path, hRoot⟩
    · exact fun other hOther => hMarks other (List.mem_cons_of_mem _ hOther)

/-- What holds between the ledger of a run and its loop: the marks of the current interval, without
repeats, are the dirty roots, and a flush is due exactly if there are any. -/
structure Settled (roots : List Path) (grace : UInt64) (a : Ledger) (l : Loop) : Prop where
  roots_eq : l.coalescer.roots = roots
  grace_eq : l.coalescer.grace = grace
  dirty_eq : l.coalescer.dirty = a.current.eraseDups
  armed_iff : l.coalescer.deadline.isSome = true ↔ a.current ≠ []
  resolved : ∀ root ∈ a.current, ∃ path, resolveRoot path roots = some root

variable {roots : List Path} {grace : UInt64} {rounds : List Round} {fate : Fate}

theorem Settled.meanwhile {a : Ledger} {before after : Loop} (h : Settled roots grace a before)
    (hWait : before.Meanwhile after) : Settled roots grace a after := by
  -- only the engine may be another one, and the invariant does not speak of it
  obtain ⟨engine, -, hEq⟩ := hWait.engine
  constructor
  · rw [hEq]
    exact h.roots_eq
  · rw [hEq]
    exact h.grace_eq
  · rw [hEq]
    exact h.dirty_eq
  · rw [hEq]
    exact h.armed_iff
  · exact h.resolved

/-- An event is handled: its marks join those of the interval. -/
theorem Settled.marked {a : Ledger} {l : Loop} (h : Settled roots grace a l) (d : Disk) (now : Nat)
    (event : Event) (inbox : List Message) :
    Settled roots grace { a with current := a.current ++ l.coalescer.marks d now event }
      { l with coalescer := (l.coalescer.handleEvent d now event).1, inbox } := by
  have hNew : ∀ root ∈ l.coalescer.marks d now event,
      ∃ path, resolveRoot path roots = some root := by
    intro root hRoot
    rw [← h.roots_eq]
    exact Coalescer.marks_resolved hRoot
  constructor
  · exact (Coalescer.handleEvent_roots ..).trans h.roots_eq
  · exact (Coalescer.handleEvent_grace ..).trans h.grace_eq
  · show (l.coalescer.handleEvent d now event).1.dirty = _
    rw [Coalescer.handleEvent_dirty, h.dirty_eq]
    -- a mark is a root of the list, so equal components mean the same spelling
    exact Path.foldl_addNew_eraseDups h.resolved hNew
  · show (l.coalescer.handleEvent d now event).1.deadline.isSome = true ↔ _
    rw [Coalescer.handleEvent_deadline]
    by_cases hNone : l.coalescer.marks d now event = []
    · rw [if_pos hNone, hNone, List.append_nil]
      exact h.armed_iff
    · rw [if_neg hNone]
      simp [hNone]
  · intro root hRoot
    rcases List.mem_append.mp hRoot with hOld | hHere
    · exact h.resolved root hOld
    · exact hNew root hHere

/-- A flush closes the interval, and leaves nothing to flush. -/
theorem Settled.flushed {a : Ledger} {r : Round} {l : Loop} (h : Settled roots grace a l)
    (hFlush : r.flushes = true) : Settled roots grace (a.add r)
      { l with coalescer := { l.coalescer with dirty := [], deadline := none } } := by
  rw [Ledger.add, hFlush]
  exact ⟨h.roots_eq, h.grace_eq, rfl, by simp, by simp⟩

/-- A round without marks that does not flush changes no interval. -/
theorem Ledger.add_idle (a : Ledger) {r : Round} (hFlush : r.flushes = false)
    (hMarks : r.marks = []) : a.add r = a := by
  rw [Ledger.add, hFlush, hMarks]
  simp

/-- A turn keeps the invariant, whatever it does. -/
theorem Settled.turn {a : Ledger} {r : Round} (h : Settled roots grace a r.loop) :
    Settled roots grace (a.add r) r.turn.loop := by
  cases r.did with
  | event event rest hGoing hInbox hAction hLoop =>
    have hFlush : r.flushes = false := by rw [Round.flushes, hAction]; rfl
    have hMarks : r.marks = r.loop.coalescer.marks r.disk r.now event := by
      rw [Round.marks, hAction]
    rw [Ledger.add, hFlush, hMarks, hLoop]
    exact h.marked r.disk r.now event rest
  | failure error rest hGoing hInbox hAction hLoop =>
    have hFlush : r.flushes = false := by rw [Round.flushes, hAction]; rfl
    have hMarks : r.marks = [] := by rw [Round.marks, hAction]
    -- only the inbox is shorter
    rw [a.add_idle hFlush hMarks, hLoop]
    exact ⟨h.roots_eq, h.grace_eq, h.dirty_eq, h.armed_iff, h.resolved⟩
  | expired hGoing hInbox hOpen hDue hAction hLoop =>
    have hFlush : r.flushes = true := by rw [Round.flushes, hAction]; rfl
    exact hLoop ▸ h.flushed hFlush
  | leftClean hStop hIdle hAction hLoop =>
    have hFlush : r.flushes = false := by rw [Round.flushes, hAction]; rfl
    have hMarks : r.marks = [] := by rw [Round.marks, hAction]
    rw [a.add_idle hFlush hMarks, hLoop]
    exact h
  | leftFlushing hStop hArmed hAction hLoop =>
    have hFlush : r.flushes = true := by rw [Round.flushes, hAction]; rfl
    exact hLoop ▸ h.flushed hFlush

/-- A loop that goes on after a turn is the one the turn left behind. -/
theorem Round.fate_going {r : Round} {l : Loop} (h : r.fate = .going l) :
    l = r.turn.loop ∧ r.leaves = false := by
  unfold Round.fate at h
  split at h
  · cases h
  · split at h
    · cases h
    · rename_i hStays
      injection h with hEq
      exact ⟨hEq.symm, by simpa using hStays⟩

/-- **The invariant of a run.** -/
theorem Run.settled (h : Run roots grace rounds fate) :
    ∀ {l : Loop}, fate = .going l → Settled roots grace (ledger rounds) l := by
  induction h with
  | start =>
    intro l hFate
    injection hFate with hEq
    subst hEq
    exact ⟨rfl, rfl, rfl, by simp [Coalescer.new, ledger], by simp [ledger]⟩
  | wait _ hWait ih =>
    intro l hFate
    injection hFate with hEq
    exact hEq ▸ (ih rfl).meanwhile hWait
  | turn r _ ih =>
    intro l hFate
    rw [(Round.fate_going hFate).1, ledger_concat]
    exact (ih rfl).turn

/-! ## Runs, cut at a round -/

/-- Up to any of its rounds a run is a run, which was going on then. -/
theorem Run.before (h : Run roots grace rounds fate) :
    ∀ {before after : List Round} {r : Round}, rounds = before ++ r :: after →
      Run roots grace before (.going r.loop) := by
  induction h with
  | start =>
    intro before after r hEq
    simp at hEq
  | wait _ _ ih => exact ih
  | @turn rounds last hRun ih =>
    intro before after r hEq
    -- the round is the last one, or lies in the run before it
    rcases List.eq_nil_or_concat after with rfl | ⟨init, final, rfl⟩
    · obtain ⟨hBefore, hLast⟩ := List.append_inj' hEq rfl
      rw [List.cons.injEq] at hLast
      rw [← hBefore, ← hLast.1]
      exact hRun
    · rw [List.concat_eq_append, ← List.cons_append, ← List.append_assoc] at hEq
      exact ih (List.append_inj' hEq rfl).1

/-- The invariant at the start of any round. -/
theorem Run.settled_at {before after : List Round} {r : Round}
    (h : Run roots grace (before ++ r :: after) fate) :
    Settled roots grace (ledger before) r.loop :=
  (h.before rfl).settled rfl

/-- A run that goes on did not leave the loop in its last round. -/
theorem Run.stays (h : Run roots grace rounds fate) :
    ∀ {before : List Round} {r : Round} {l : Loop}, rounds = before ++ [r] → fate = .going l →
      r.leaves = false := by
  induction h with
  | start =>
    intro before r l hEq
    simp at hEq
  | wait _ _ ih =>
    intro before r l hEq _
    exact ih hEq rfl
  | turn last _ _ =>
    intro before r l hEq hFate
    -- the loop goes on after its last turn, so that turn did not leave it
    rw [← List.head_eq_of_cons_eq (List.append_inj' hEq rfl).2]
    exact (Round.fate_going hFate).2

/-- Only the last round of a run leaves the loop. -/
theorem Run.stays_before {before after : List Round} {r s : Round}
    (h : Run roots grace (before ++ r :: s :: after) fate) : r.leaves = false := by
  have hCut : Run roots grace (before ++ [r]) (.going s.loop) :=
    h.before (List.append_cons before r (s :: after))
  exact hCut.stays rfl rfl

/-- A run that returned did so in its last round. -/
theorem Run.last_of_returned (h : Run roots grace rounds fate) (hFate : fate = .returned) :
    ∃ before r, rounds = before ++ [r] ∧ r.leaves = true := by
  cases h with
  | start => cases hFate
  | wait => cases hFate
  | @turn rounds r hRun =>
    refine ⟨rounds, r, rfl, ?_⟩
    unfold Round.fate at hFate
    split at hFate
    · cases hFate
    · split at hFate
      · assumption
      · cases hFate

/-! ## What flushes bump -/

theorem Round.calls_of_flushes {r : Round} (h : r.flushes = true) :
    r.calls = r.loop.coalescer.dirty := by
  unfold Round.flushes at h
  unfold Round.calls Round.results
  -- only two of the five actions flush, and both of them bump all dirty roots
  cases r.did with
  | event event rest hGoing hInbox hAction hLoop =>
    rw [hAction] at h
    cases h
  | failure error rest hGoing hInbox hAction hLoop =>
    rw [hAction] at h
    cases h
  | expired hGoing hInbox hOpen hDue hAction hLoop =>
    rw [hAction]
    exact bumpAll_roots ..
  | leftClean hStop hIdle hAction hLoop =>
    rw [hAction] at h
    cases h
  | leftFlushing hStop hArmed hAction hLoop =>
    rw [hAction]
    exact bumpAll_roots ..

/-- **A flush bumps the marks since the last flush**, in the order of the first of each, and
nothing else. -/
theorem Run.calls_eq {before after : List Round} {r : Round}
    (h : Run roots grace (before ++ r :: after) fate) (hFlush : r.flushes = true) :
    r.calls = (ledger before).current.eraseDups := by
  rw [Round.calls_of_flushes hFlush, h.settled_at.dirty_eq]

theorem Round.calls_of_not_flushes {r : Round} (h : r.flushes = false) : r.calls = [] := by
  unfold Round.flushes at h
  unfold Round.calls Round.results
  cases hBumps : r.turn.action.bumps? with
  | none => rfl
  | some bumps =>
    rw [hBumps] at h
    cases h

/-- On the way out there is a flush exactly if something was marked since the last one. -/
theorem Run.flushes_iff_of_left {before after : List Round} {r : Round}
    (h : Run roots grace (before ++ r :: after) fate) (hLeaves : r.leaves = true) :
    r.flushes = true ↔ (ledger before).current ≠ [] := by
  rw [← h.settled_at.armed_iff]
  unfold Round.leaves at hLeaves
  unfold Round.flushes
  -- on the way out the deadline alone decides, and it is armed if there are marks
  cases r.did with
  | event event rest hGoing hInbox hAction hLoop =>
    rw [hAction] at hLeaves
    cases hLeaves
  | failure error rest hGoing hInbox hAction hLoop =>
    rw [hAction] at hLeaves
    cases hLeaves
  | expired hGoing hInbox hOpen hDue hAction hLoop =>
    rw [hAction] at hLeaves
    cases hLeaves
  | leftClean hStop hIdle hAction hLoop =>
    rw [hAction, hIdle]
    simp [Action.bumps?]
  | leftFlushing hStop hArmed hAction hLoop =>
    rw [hAction, hArmed]
    simp [Action.bumps?]

/-- A run that returned left no mark behind. -/
theorem Run.current_of_returned (h : Run roots grace rounds .returned) :
    (ledger rounds).current = [] := by
  obtain ⟨before, r, rfl, hLeaves⟩ := h.last_of_returned rfl
  have hIff := h.flushes_iff_of_left hLeaves
  rw [ledger_concat, Ledger.add]
  cases hFlush : r.flushes with
  | true => rfl
  | false =>
    rw [hFlush] at hIff
    -- no flush on the way out, so nothing was open, and nothing is marked there
    have hNone : (ledger before).current = [] := by simpa using hIff
    have hMarks : r.marks = [] := by
      unfold Round.leaves at hLeaves
      unfold Round.marks
      cases hAction : r.turn.action with
      | received message =>
        rw [hAction] at hLeaves
        cases hLeaves
      | flushed bumps => rfl
      | left bumps => rfl
    rw [hNone, hMarks]
    rfl

/-! ## A sample run

Two writes below one root, 7 ms apart with a grace period of 10 ms; the flush for both when the
deadline is over; the way out when the channel is closed. -/

namespace Sample

def root : Path :=
  ⟨"a"⟩

def disk : Disk :=
  ⟨[], []⟩

def write (path : String) : Message :=
  .event ⟨.contents, [.text path]⟩

def first : Round :=
  let l : Loop := { coalescer := .new {} [root] 10, inbox := [write "a/x"] }
  ⟨l, .none, disk, 0, l.receive disk 0 (write "a/x") [], rfl⟩

def second : Round :=
  let l : Loop := { first.turn.loop with inbox := [write "a/y"] }
  ⟨l, .none, disk, 7, l.receive disk 7 (write "a/y") [], rfl⟩

def expiry : Round :=
  let l : Loop := second.turn.loop
  ⟨l, .none, disk, 17, l.expire .none disk, rfl⟩

def exit : Round :=
  let l : Loop := { expiry.turn.loop with closed := true }
  ⟨l, .none, disk, 30, l.leave .none disk [.channelClosed], rfl⟩

theorem run : Run [root] 10 [first, second, expiry, exit] .returned := by
  have hFirst : Run [root] 10 [first] (.going first.turn.loop) := .turn first .start
  have hDelivered : first.turn.loop.Meanwhile second.loop :=
    ⟨⟨_, rfl, rfl⟩, List.nil_prefix, fun h => (Bool.noConfusion h), fun h => Bool.noConfusion h⟩
  have hSecond : Run [root] 10 [first, second] (.going second.turn.loop) :=
    .turn second (hFirst.wait hDelivered)
  have hExpiry : Run [root] 10 [first, second, expiry] (.going expiry.turn.loop) :=
    .turn expiry hSecond
  have hClosed : expiry.turn.loop.Meanwhile exit.loop :=
    ⟨⟨_, rfl, rfl⟩, List.nil_prefix, fun h => Bool.noConfusion h, fun h => Bool.noConfusion h⟩
  exact .turn exit (hExpiry.wait hClosed)

end Sample

end TreeWatch
