import TreeWatch.Proofs.Snapshots
import TreeWatch.Proofs.Watches

/-!
# States that a controller can come to

A run is made of moves of callers, calls, sessions and the world. Between them a caller may give up
its call, which leaves the session that the call waited for to itself, and a program writes to its
log and starts or drops a reloader, which is one more task. None of that is a move, and all of it
can go on for as long as the controller lives. `Reachable` are the states that come about in this
way. Sessions need not be exclusive in them, but most of what holds in runs does (`Consistent`).

Main results:
  * `abandon_givenUp`: what giving up a call comes to
  * `Consistent.step`, `Reachable.consistent`: every reachable state is consistent
-/

namespace TreeWatch

namespace Service

variable {s s₀ after : Service} {moves : List Move} {lives more : List Life} {move : Move}
  {id : SessionId} {a b : Session} {e : WatchError}

/-! ## What sessions report -/

/-- The sessions have reported errors of their own only. -/
def Candid (s : Service) : Prop :=
  ∀ id session e, s.session? id = some session → session.ready = some (.error e) → e.OfSession

/-- A step of its task makes a session report an error of its own, if any. -/
theorem reported_acts (hActs : s.Acts id a b) (hReady : b.ready = some (.error e)) :
    a.ready = some (.error e) ∨ e.OfSession := by
  cases hActs with
  | broke | connected | unwanted => exact Or.inl hReady
  | unconnected e' hPhase hError | unsubscribed c engine e' hPhase hError =>
    cases hReady
    exact Or.inr hError
  | subscribed =>
    -- it reports that it is ready
    cases hReady
  | round r hRound =>
    rw [Session.afterRound_ready] at hReady
    exact Or.inl hReady

theorem Candid.call (h : s.Candid) (hAfter : SessionsAfter s after) : after.Candid := by
  intro id b e hb hReady
  rcases hAfter.session? hb with ⟨a, ha, rfl | rfl⟩ | ⟨-, dirs, grace, -, rfl⟩
  · exact h id _ e ha hReady
  · exact h id a e ha hReady
  · -- a session that is spawned has reported nothing
    cases hReady

/-- **Every move** leaves it so. -/
theorem Candid.step (h : s.Candid) (hTidy : s.Tidy) (hStep : Step s move more after) :
    after.Candid := by
  cases hStep with
  | begin request =>
    rcases begin_effect s request with ⟨-, hBegun⟩ | ⟨dirs, e, -, -, hBegun⟩ <;> exact hBegun ▸ h
  | call hCall =>
    obtain ⟨first, rest, hCalls⟩ := exists_call hCall
    have hSound := (hTidy.expects first (hCalls ▸ List.mem_cons_self)).sound
    exact h.call ((stepCall_cases hCalls hCall).sessionsAfter hSound)
  | session id hTask =>
    obtain ⟨a, b, ha, hActs, hApart⟩ := stepSession_cases hTask
    intro other c e hc hReady
    rcases hApart.session_cases ha hc with ⟨rfl, rfl⟩ | ⟨-, hSame⟩
    · exact (reported_acts hActs hReady).elim (h _ a e ha) fun hError => hError
    · exact h other c e hSame hReady
  | outside o =>
    intro id b e hb hReady
    obtain ⟨a, ha, hUndergoes⟩ := (undergo_undergone s o).before hb
    exact h id a e ha (hUndergoes.ready.symm.trans hReady)

/-- A start fails with an error of its session. -/
theorem Candid.startError (h : s.Candid) (hSession : s.session? id = some a)
    (hError : a.startError? = some e) : e.OfSession := by
  unfold Session.startError? at hError
  split at hError
  · next hReady =>
    cases hError
    exact h id a e hSession hReady
  · cases hError
    exact .aborted _
  · cases hError
    exact .aborted _
  · cases hError

/-! ## What is shown of the session that is held -/

/-- The session that is held is shown. -/
def Shown (s : Service) : Prop :=
  ∀ id, s.slot = some id → ∃ session, s.session? id = some session ∧ s.status = session.running

theorem shown_of_free (hFree : s.slot = none) : s.Shown :=
  fun _ hHeld => by cases hFree.symm.trans hHeld

theorem Shown.carried (h : s.Shown) (hNext : s.Forward after) (hSlot : after.slot = s.slot)
    (hStatus : after.status = s.status) : after.Shown := by
  intro id hHeld
  obtain ⟨a, ha, hShown⟩ := h id (hSlot ▸ hHeld)
  obtain ⟨b, hb, hEvolves⟩ := hNext id a ha
  refine ⟨b, hb, ?_⟩
  rw [hStatus, hShown, Session.running, Session.running, hEvolves.roots, hEvolves.grace]

theorem Shown.call (h : s.Shown) (hTidy : s.Tidy) (hLine : s.InLine)
    (hCall : s.stepCall = some after) : after.Shown := by
  have hNext := hTidy.forward (.call hCall)
  obtain ⟨first, rest, hCalls⟩ := exists_call hCall
  -- no session is held while one is waited for
  have hFree {id : SessionId} (hAwaited : first.stage.awaited? = some id) : s.slot = none :=
    hLine.apart.resolve_right (by simp [awaited?_head hCalls, hAwaited])
  cases stepCall_cases hCalls hCall with
  | refused request e log hStage hWhy hAfter =>
    subst hAfter
    exact h.carried hNext rfl rfl
  | launched dirs grace log hStage hNone hDirs hAfter => exact shown_of_free (hAfter ▸ hNone)
  | ending request id next log hStage hHeld hEnds hAfter => exact shown_of_free (hAfter ▸ rfl)
  | started id next session log hStage hSession hReady hAfter =>
    subst hAfter
    intro other hHeld
    obtain rfl : id = other := Option.some.inj hHeld
    exact ⟨session, hSession, rfl⟩
  | ended id session result log hAwaited hSession hVerdict hAfter =>
    exact shown_of_free (hAfter ▸ hFree hAwaited)
  | another id session dirs grace next log hAwaited hSession hDirs hAnother hAfter =>
    exact shown_of_free (hAfter ▸ hFree hAwaited)

/-- **Every move** leaves it so. -/
theorem Shown.step (h : s.Shown) (hTidy : s.Tidy) (hLine : s.InLine)
    (hStep : Step s move more after) : after.Shown := by
  have hNext := hTidy.forward hStep
  cases hStep with
  | begin request =>
    rcases begin_effect s request with ⟨-, hBegun⟩ | ⟨dirs, e, -, -, hBegun⟩ <;> exact hBegun ▸ h
  | call hCall => exact h.call hTidy hLine hCall
  | session id hTask =>
    obtain ⟨a, b, -, -, hApart⟩ := stepSession_cases hTask
    exact h.carried hNext hApart.slot hApart.status
  | outside o =>
    have hUndergone := undergo_undergone s o
    exact h.carried hNext hUndergone.slot hUndergone.status

/-! ## Calls that are given up -/

/-- What giving up a call comes to: it is gone, and the session that it waited for is not waited for
any more. -/
structure GivenUp (s after : Service) : Prop where
  calls : after.calls.Sublist s.calls
  slot : after.slot = s.slot
  status : after.status = s.status
  sink : after.sink = s.sink
  sessions : ∀ id, after.session? id = s.session? id ∨
    after.session? id = (s.session? id).map fun session => { session with abandoned := true }

theorem GivenUp.trans (h : s₀.GivenUp s) (h' : s.GivenUp after) : s₀.GivenUp after where
  calls := h'.calls.trans h.calls
  slot := h'.slot.trans h.slot
  status := h'.status.trans h.status
  sink := h'.sink.trans h.sink
  sessions id := by
    rcases h.sessions id with hFirst | hFirst <;> rcases h'.sessions id with hNext | hNext <;>
      rw [hNext, hFirst]
    · exact Or.inl rfl
    · exact Or.inr rfl
    · exact Or.inr rfl
    · rw [Option.map_map]
      exact Or.inr rfl

theorem givenUp_modified (s : Service) (id : SessionId) :
    s.GivenUp (s.modifySession id fun session => { session with abandoned := true }) where
  calls := .refl _
  slot := rfl
  status := rfl
  sink := rfl
  sessions other := by
    rw [modifySession, session?, List.getElem?_modify]
    by_cases hHere : id = other
    · right
      simp only [hHere, if_true]
      rfl
    · left
      simp only [hHere, if_false, id_map']
      rfl

theorem abandon_givenUp (s : Service) (number : Nat) : s.GivenUp (s.abandon number) := by
  have hStart : s.GivenUp { s with calls := s.calls.filter (·.id ≠ number) } :=
    ⟨List.filter_sublist, rfl, rfl, rfl, fun _ => Or.inl rfl⟩
  unfold abandon
  -- by induction on the calls with that number
  generalize s.calls.filter (·.id = number) = given
  generalize { s with calls := s.calls.filter (·.id ≠ number) } = v at hStart
  dsimp only
  induction given generalizing v with
  | nil => exact hStart
  | cons call rest ih =>
    rw [List.foldl_cons]
    refine ih _ ?_
    split
    · exact hStart.trans (givenUp_modified _ _)
    · exact hStart

theorem GivenUp.before (h : s.GivenUp after) (hSession : after.session? id = some b) :
    ∃ a, s.session? id = some a ∧ (b = a ∨ b = { a with abandoned := true }) := by
  rcases h.sessions id with hSame | hMarked
  · exact ⟨b, hSame.symm.trans hSession, Or.inl rfl⟩
  · rw [hMarked] at hSession
    obtain ⟨a, ha, rfl⟩ := Option.map_eq_some_iff.mp hSession
    exact ⟨a, ha, Or.inr rfl⟩

theorem evolves_abandoned (a : Session) : a.Evolves { a with abandoned := true } :=
  ⟨rfl, rfl, rfl, id, fun _ => rfl, fun _ => ⟨rfl, rfl⟩⟩

theorem GivenUp.forward (h : s.GivenUp after) : s.Forward after := by
  intro id a ha
  rcases h.sessions id with hSame | hMarked
  · exact ⟨a, hSame.trans ha, .refl a⟩
  · exact ⟨{ a with abandoned := true }, by rw [hMarked, ha]; rfl, evolves_abandoned a⟩

theorem inOrder_abandoned (h : a.InOrder) : { a with abandoned := true }.InOrder := by
  cases h with
  | connecting hPhase hReady hOpen => exact .connecting hPhase hReady hOpen
  | registering registrar hPhase hReady => exact .registering registrar hPhase hReady
  | watching c hPhase hReady => exact .watching c hPhase hReady
  | finished engine crash hPhase => exact .finished engine crash hPhase

theorem watched_abandoned {rounds : List Round} (h : a.Watched rounds) :
    { a with abandoned := true }.Watched rounds := by
  cases h with
  | settingUp hPhase hRounds => exact .settingUp hPhase hRounds
  | failed engine crash hPhase hReady hRounds => exact .failed engine crash hPhase hReady hRounds
  | going l hLoop hRun => exact .going l hLoop hRun
  | returned engine hPhase hReady hRun => exact .returned engine hPhase hReady hRun
  | crashed engine reason hPhase hReady hRun => exact .crashed engine reason hPhase hReady hRun

theorem Tidy.givenUp (h : s.Tidy) (hGivenUp : s.GivenUp after) : after.Tidy := by
  refine h.carried hGivenUp.forward ?_ ?_ hGivenUp.slot
    fun call hCall => Or.inl (hGivenUp.calls.subset hCall)
  · intro id b hb
    obtain ⟨a, ha, rfl | rfl⟩ := hGivenUp.before hb
    · exact ⟨b, ha, .refl b, h.inOrder id b ha⟩
    · exact ⟨a, ha, evolves_abandoned a, inOrder_abandoned (h.inOrder id a ha)⟩
  · intro id hSink
    obtain ⟨a, ha, hPhase, hOpen⟩ := h.sink id (hGivenUp.sink ▸ hSink)
    rcases hGivenUp.sessions id with hSame | hMarked
    · exact ⟨a, hSame.trans ha, hPhase, hOpen⟩
    · exact ⟨{ a with abandoned := true }, by rw [hMarked, ha]; rfl, hPhase, hOpen⟩

/-- Whichever call is the first one then, it is the one that was, or waits for the lock. -/
theorem InLine.givenUp (h : s.InLine) (hGivenUp : s.GivenUp after) : after.InLine := by
  refine ⟨fun call hCall => h.waiting call (hGivenUp.calls.tail.subset hCall), ?_⟩
  rw [hGivenUp.slot]
  cases hCalls : after.calls with
  | nil => exact Or.inr (awaited?_of_waiting (by simp [hCalls]))
  | cons call rest =>
    have hLine := hGivenUp.calls
    rw [hCalls] at hLine
    cases hBefore : s.calls with
    | nil => simp [hBefore] at hLine
    | cons first others =>
      rw [hBefore] at hLine
      cases hLine with
      | cons _ hLater =>
        -- the first call was given up, and the one in its place has not had its turn
        obtain ⟨request, hStage⟩ := h.waiting call (by
          rw [hBefore]
          exact hLater.subset List.mem_cons_self)
        exact Or.inr (by rw [awaited?_head hCalls, hStage]; rfl)
      | cons_cons _ hLater =>
        rw [awaited?_head hCalls, ← awaited?_head hBefore]
        exact h.apart

theorem WatchedAll.givenUp {rounds : SessionId → List Round} (h : s.WatchedAll rounds)
    (hGivenUp : s.GivenUp after) : after.WatchedAll rounds := by
  refine fun id => ⟨fun hNone => (h id).1 ?_, fun b hb => ?_⟩
  · by_contra hSome
    obtain ⟨a, ha⟩ := Option.ne_none_iff_exists'.mp hSome
    obtain ⟨b, hb, -⟩ := hGivenUp.forward id a ha
    cases hNone.symm.trans hb
  · obtain ⟨a, ha, rfl | rfl⟩ := hGivenUp.before hb
    · exact (h id).2 b ha
    · exact watched_abandoned ((h id).2 a ha)

theorem Candid.givenUp (h : s.Candid) (hGivenUp : s.GivenUp after) : after.Candid := by
  intro id b e hb hReady
  obtain ⟨a, ha, rfl | rfl⟩ := hGivenUp.before hb <;> exact h id _ e ha hReady

/-! ## What holds in all of them -/

/-- What holds of a controller at any moment. -/
structure Consistent (s : Service) : Prop where
  tidy : s.Tidy
  line : s.InLine
  shown : s.Shown
  watched : ∃ rounds, s.WatchedAll rounds
  candid : s.Candid

theorem Fresh.consistent (h : s.Fresh) : s.Consistent where
  tidy := h.tidy
  line := inLine_of_idle h.calls
  shown := shown_of_free h.slot
  watched := ⟨_, h.watched⟩
  candid id session e hSession := by simp [session?, h.sessions] at hSession

/-- **Every move** leaves a controller consistent. -/
theorem Consistent.step (h : s.Consistent) (hStep : Step s move more after) : after.Consistent := by
  obtain ⟨rounds, hWatched⟩ := h.watched
  exact ⟨h.tidy.step hStep, h.line.step hStep, h.shown.step h.tidy h.line hStep,
    ⟨_, hWatched.step h.tidy hStep⟩, h.candid.step h.tidy hStep⟩

theorem Consistent.steps (h : s₀.Consistent) (run : Steps s₀ moves lives s) : s.Consistent := by
  induction run with
  | nil => exact h
  | snoc run hStep ih => exact ih.step hStep

theorem Consistent.givenUp (h : s.Consistent) (hGivenUp : s.GivenUp after) : after.Consistent := by
  obtain ⟨rounds, hWatched⟩ := h.watched
  exact ⟨h.tidy.givenUp hGivenUp, h.line.givenUp hGivenUp,
    h.shown.carried hGivenUp.forward hGivenUp.slot hGivenUp.status,
    ⟨rounds, hWatched.givenUp hGivenUp⟩, h.candid.givenUp hGivenUp⟩

/-- Neither the log nor who holds the controller, nor how many tasks there have been, matter for
it. -/
theorem Consistent.aside (h : s.Consistent) (log : List LogLine) (tasks : Nat) (held : Bool)
    (reloader : Option Reloader) : { s with log, tasks, held, reloader }.Consistent where
  tidy := ⟨h.tidy.inOrder, h.tidy.watchable, h.tidy.sink, h.tidy.held, fun call hCall =>
    (h.tidy.expects call hCall).later fun _ a ha => ⟨a, ha, .refl a⟩⟩
  line := h.line.unchanged rfl rfl
  shown := h.shown
  watched := h.watched
  candid := h.candid

theorem Consistent.noted (h : s.Consistent) (log : List LogLine) : { s with log }.Consistent :=
  h.aside log s.tasks s.held s.reloader

/-! ## Reachable states -/

/-- The states that a controller can come to from the time when it is fresh: by moves, while callers
give up calls, and others write to the log, start and drop reloaders, and let go of it. -/
inductive Reachable : Service → Prop where
  | fresh {s : Service} (h : s.Fresh) : Reachable s
  | move {s after : Service} {move : Move} {more : List Life} (h : Reachable s)
      (hStep : Step s move more after) : Reachable after
  | abandoned {s : Service} (h : Reachable s) (number : Nat) : Reachable (s.abandon number)
  | aside {s : Service} (h : Reachable s) (log : List LogLine) (tasks : Nat) (held : Bool)
      (reloader : Option Reloader) : Reachable { s with log, tasks, held, reloader }

/-- **Every reachable state** is consistent. -/
theorem Reachable.consistent (h : s.Reachable) : s.Consistent := by
  induction h with
  | fresh h => exact h.consistent
  | move h hStep ih => exact ih.step hStep
  | abandoned h number ih => exact ih.givenUp (abandon_givenUp _ number)
  | aside h log tasks held reloader ih => exact ih.aside log tasks held reloader

/-- What a run leads to from there is reachable. -/
theorem Reachable.steps (h : s₀.Reachable) (run : Steps s₀ moves lives s) : s.Reachable := by
  induction run with
  | nil => exact h
  | snoc run hStep ih => exact ih.move hStep

end Service

end TreeWatch
