import TreeWatch.Proofs.Sessions

/-!
# The loops of sessions

In a run of a controller each session that becomes ready runs an event loop. `Service.rounds` are
the rounds that the loop of a session makes in the course of the moves; everything else that
happens to the session between two of them is what may happen to a loop meanwhile. So the rounds
are a run of the loop in its own right, and what is known of those holds here.

Main result:
  * `Steps.watched`: the rounds of each session are a run of its loop, to where the session stands
-/

namespace TreeWatch

/-- A turn does not close the channel, nor tell its own loop to stop. -/
theorem Round.turn_flags (r : Round) :
    r.turn.loop.closed = r.loop.closed ∧ r.turn.loop.cancelled = r.loop.cancelled := by
  cases r.did with
  | event event rest hGoing hInbox hAction hLoop => rw [hLoop]; exact ⟨rfl, rfl⟩
  | failure error rest hGoing hInbox hAction hLoop => rw [hLoop]; exact ⟨rfl, rfl⟩
  | expired hGoing hInbox hOpen hDue hAction hLoop => rw [hLoop]; exact ⟨rfl, rfl⟩
  | leftClean hStop hIdle hAction hLoop => rw [hLoop]; exact ⟨rfl, rfl⟩
  | leftFlushing hStop hArmed hAction hLoop => rw [hLoop]; exact ⟨rfl, rfl⟩

/-- What the rounds of a session are by where it stands. -/
inductive Session.Watched (session : Session) (rounds : List Round) : Prop where
  | settingUp (hPhase : session.phase = .connecting ∨ ∃ c, session.phase = .registering c)
      (hRounds : rounds = [])
  | failed (engine : Option Engine) (crash : Option String)
      (hPhase : session.phase = .finished engine crash)
      (hReady : session.ready ≠ some (.ok ())) (hRounds : rounds = [])
  | going (l : Loop) (hLoop : session.loop? = some l)
      (hRun : Run session.roots session.grace rounds (.going l))
  | returned (engine : Option Engine) (hPhase : session.phase = .finished engine none)
      (hReady : session.ready = some (.ok ()))
      (hRun : Run session.roots session.grace rounds .returned)
  | crashed (engine : Option Engine) (reason : String)
      (hPhase : session.phase = .finished engine (some reason))
      (hReady : session.ready = some (.ok ()))
      (hRun : Run session.roots session.grace rounds .crashed)

/-- A loop that is over without a crash has returned. -/
theorem Session.Watched.run_of_returned {session : Session} {rounds : List Round}
    {engine : Option Engine} (h : session.Watched rounds)
    (hPhase : session.phase = .finished engine none) (hReady : session.ready = some (.ok ())) :
    Run session.roots session.grace rounds .returned := by
  cases h with
  | settingUp hHere hRounds =>
    rcases hHere with hHere | ⟨c, hHere⟩ <;> cases hHere.symm.trans hPhase
  | failed other crash hHere hNot hRounds => exact absurd hReady hNot
  | going l hLoop hRun =>
    obtain ⟨c, hHere, -⟩ := Session.loop?_eq_some.mp hLoop
    cases hHere.symm.trans hPhase
  | returned other hHere hOk hRun => exact hRun
  | crashed other reason hHere hOk hRun => cases hHere.symm.trans hPhase

namespace Service

/-! ## Moves that are made -/

/-- The service after a move. A move that cannot be made changes nothing. -/
def perform (s : Service) : Move → Service
  | .begin request => s.begin request
  | .call => s.stepCall.getD s
  | .session id => (s.stepSession id).getD s
  | .outside o => s.undergo o

/-- Whether a move can be made. Others can always begin calls, and the world is free. -/
def Enabled (s : Service) : Move → Prop
  | .call => s.stepCall.isSome = true
  | .session id => (s.stepSession id).isSome = true
  | .begin _ | .outside _ => True

instance (s : Service) : DecidablePred s.Enabled
  | .call => inferInstanceAs (Decidable (s.stepCall.isSome = true))
  | .session id => inferInstanceAs (Decidable ((s.stepSession id).isSome = true))
  | .begin _ | .outside _ => .isTrue trivial

/-- What a move adds to the record. -/
def recorded (s : Service) : Move → List Life
  | .call => livesOfCall s (s.perform .call)
  | .session id => [.acted id]
  | .begin _ | .outside _ => []

/-- Moves that can be made one after another. -/
def Possible (s : Service) : List Move → Prop
  | [] => True
  | move :: rest => s.Enabled move ∧ (s.perform move).Possible rest

instance (moves : List Move) : ∀ s : Service, Decidable (s.Possible moves) :=
  match moves with
  | [] => fun _ => .isTrue trivial
  | move :: rest => fun s =>
    have := instDecidablePossible rest (s.perform move)
    inferInstanceAs (Decidable (s.Enabled move ∧ (s.perform move).Possible rest))

/-- The record that moves leave. -/
def record (s : Service) : List Move → List Life
  | [] => []
  | move :: rest => s.recorded move ++ (s.perform move).record rest

theorem stepCall_perform {s : Service} (h : s.stepCall.isSome = true) :
    s.stepCall = some (s.perform .call) := by
  obtain ⟨after, hCall⟩ := Option.isSome_iff_exists.mp h
  rw [perform, hCall]
  rfl

theorem stepSession_perform {s : Service} {id : SessionId} (h : (s.stepSession id).isSome = true) :
    s.stepSession id = some (s.perform (.session id)) := by
  obtain ⟨after, hTask⟩ := Option.isSome_iff_exists.mp h
  rw [perform, hTask]
  rfl

theorem step_perform {s : Service} {move : Move} (h : s.Enabled move) :
    Step s move (s.recorded move) (s.perform move) := by
  cases move with
  | begin request => exact .begin request
  | outside o => exact .outside o
  | call => exact .call (stepCall_perform h)
  | session id => exact .session id (stepSession_perform h)

/-- Moves that can be made are a run. -/
theorem steps_of_possible {moves : List Move} :
    ∀ {s : Service}, s.Possible moves → Steps s moves (s.record moves) (moves.foldl perform s) := by
  induction moves with
  | nil => exact fun _ => .nil
  | cons move rest ih => exact fun h => (Steps.snoc .nil (step_perform h.1)).append (ih h.2)

/-! ## The rounds of a run -/

/-- The round of a session that a move is, if it is one. -/
def roundIn? (s : Service) (id : SessionId) : Move → Option Round
  | .session other => if other = id then s.round? id else none
  | _ => none

/-- The rounds that the loop of a session makes in a run. -/
def rounds (s : Service) (id : SessionId) : List Move → List Round
  | [] => []
  | move :: rest => (s.roundIn? id move).toList ++ (s.perform move).rounds id rest

variable {s s₀ after : Service} {id : Nat} {moves : List Move} {lives more : List Life}
  {move : Move} {a b : Session}

theorem roundIn?_session (s : Service) (id other : SessionId) :
    s.roundIn? id (.session other) = if other = id then s.round? id else none :=
  rfl

theorem Step.perform_eq (h : Step s move more after) : s.perform move = after := by
  cases h with
  | begin request | outside o => rfl
  | call hCall => rw [perform, hCall]; rfl
  | session id hTask => rw [perform, hTask]; rfl

theorem Steps.foldl_perform (run : Steps s₀ moves lives s) : moves.foldl perform s₀ = s := by
  induction run with
  | nil => rfl
  | snoc run hStep ih => rw [List.foldl_append, ih]; exact hStep.perform_eq

theorem rounds_append (s : Service) (id : SessionId) (before later : List Move) :
    s.rounds id (before ++ later) =
      s.rounds id before ++ (before.foldl perform s).rounds id later := by
  induction before generalizing s with
  | nil => rfl
  | cons move rest ih => rw [List.cons_append, rounds, ih, rounds, List.append_assoc]; rfl

/-- A run with one more move has the rounds it had, and the move if it is one. -/
theorem Steps.rounds_snoc (run : Steps s₀ moves lives s) (id : SessionId) (move : Move) :
    s₀.rounds id (moves ++ [move]) = s₀.rounds id moves ++ (s.roundIn? id move).toList := by
  rw [rounds_append, run.foldl_perform, rounds, rounds, List.append_nil]

/-! ## One move -/

theorem watched_cancelled {rounds : List Round} (h : a.Watched rounds) :
    { a with cancelled := true }.Watched rounds := by
  cases h with
  | settingUp hPhase hRounds => exact .settingUp hPhase hRounds
  | failed engine crash hPhase hReady hRounds => exact .failed engine crash hPhase hReady hRounds
  | going l hLoop hRun =>
    obtain ⟨c, hPhase, rfl⟩ := Session.loop?_eq_some.mp hLoop
    refine .going _ (Session.loop?_eq_some.mpr ⟨c, hPhase, rfl⟩) (hRun.wait ?_)
    exact ⟨⟨c.registrar.engine, rfl, rfl⟩, List.prefix_rfl, fun hClosed => ⟨hClosed, rfl⟩,
      fun _ => rfl⟩
  | returned engine hPhase hReady hRun => exact .returned engine hPhase hReady hRun
  | crashed engine reason hPhase hReady hRun => exact .crashed engine reason hPhase hReady hRun

/-- The world leaves the rounds of a session a run of its loop. -/
theorem watched_undergoes {sink sink' : Option SessionId} {rounds : List Round}
    (h : a.Watched rounds) (hUndergoes : Undergoes sink sink' id a b)
    (hOpen : sink = some id → a.closed = false) : b.Watched rounds := by
  have hAlike := hUndergoes.phase
  have hReady := hUndergoes.ready
  have hStarted : Run a.roots a.grace = Run b.roots b.grace := by
    rw [hUndergoes.roots, hUndergoes.grace]
  cases h with
  | settingUp hPhase hRounds => exact .settingUp (hAlike.settingUp hPhase) hRounds
  | failed engine crash hPhase hNot hRounds =>
    exact .failed engine crash (hAlike.finished hPhase) (hReady ▸ hNot) hRounds
  | going l hLoop hRun =>
    obtain ⟨c, hPhase, rfl⟩ := Session.loop?_eq_some.mp hLoop
    obtain ⟨engine, hCrash, hWatching⟩ := hAlike.of_watching hPhase
    refine .going _ (Session.loop?_eq_some.mpr ⟨_, hWatching, rfl⟩) (hStarted ▸ hRun.wait ?_)
    refine ⟨⟨engine, hCrash, rfl⟩, hUndergoes.inbox, fun hClosed => ?_, fun hCancelled => ?_⟩
    · -- nothing is delivered once the channel is closed
      have hDeaf : sink ≠ some id := fun hSink => by
        rw [hOpen hSink] at hClosed
        cases hClosed
      refine ⟨?_, (hUndergoes.deaf hClosed).resolve_right hDeaf⟩
      rcases hUndergoes.closed with hSame | ⟨hNow, -⟩
      · exact hSame.trans hClosed
      · exact hNow
    · exact hUndergoes.cancelled.trans hCancelled
  | returned engine hPhase hOk hRun =>
    exact .returned engine (hAlike.finished hPhase) (hReady.trans hOk) (hStarted ▸ hRun)
  | crashed engine reason hPhase hOk hRun =>
    exact .crashed engine reason (hAlike.finished hPhase) (hReady.trans hOk) (hStarted ▸ hRun)

/-- Only a session that is watching makes rounds. -/
theorem round?_eq_none (hSession : s.session? id = some a) (hPhase : ∀ c, a.phase ≠ .watching c) :
    s.round? id = none := by
  by_contra hSome
  obtain ⟨r, hRound⟩ := Option.ne_none_iff_exists'.mp hSome
  obtain ⟨c, hWatching, -⟩ := watching_of_round hSession hRound
  exact hPhase c hWatching

/-- A session that was set up has made no rounds. -/
theorem rounds_of_settingUp {rounds : List Round} (h : a.Watched rounds)
    (hPhase : a.phase = .connecting ∨ ∃ c, a.phase = .registering c) : rounds = [] := by
  have hLive : ∀ engine crash, a.phase ≠ .finished engine crash := by
    rintro engine crash hOver
    rcases hPhase with hPhase | ⟨c, hPhase⟩ <;> cases hPhase.symm.trans hOver
  cases h with
  | settingUp hHere hRounds => exact hRounds
  | failed engine crash hOver hReady hRounds => exact hRounds
  | going l hLoop hRun =>
    obtain ⟨c', hWatching, -⟩ := Session.loop?_eq_some.mp hLoop
    rcases hPhase with hPhase | ⟨c, hPhase⟩ <;> cases hPhase.symm.trans hWatching
  | returned engine hOver hReady hRun => exact absurd hOver (hLive engine none)
  | crashed engine reason hOver hReady hRun => exact absurd hOver (hLive engine _)

/-- The rounds of a session that is watching led to where its loop is. -/
theorem run_of_watching {rounds : List Round} {l : Loop} (h : a.Watched rounds)
    (hLoop : a.loop? = some l) : Run a.roots a.grace rounds (.going l) := by
  obtain ⟨c, hPhase, -⟩ := Session.loop?_eq_some.mp hLoop
  cases h with
  | settingUp hHere hRounds =>
    rcases hHere with hHere | ⟨c', hHere⟩ <;> cases hHere.symm.trans hPhase
  | going l' hHere hRun => exact Option.some.inj (hHere.symm.trans hLoop) ▸ hRun
  | failed engine crash hOver hReady hRounds => cases hOver.symm.trans hPhase
  | returned engine hOver hReady hRun => cases hOver.symm.trans hPhase
  | crashed engine reason hOver hReady hRun => cases hOver.symm.trans hPhase

/-- A round of the loop takes the run one round on. -/
theorem watched_round {rounds : List Round} {r : Round} (h : a.Watched rounds) (hOrder : a.InOrder)
    (hSession : s.session? id = some a) (hRound : s.round? id = some r) :
    (a.afterRound r).Watched (rounds ++ [r]) := by
  obtain ⟨c, hPhase, hLoop⟩ := watching_of_round hSession hRound
  have hReady := hOrder.of_watching hPhase
  have hNext := (run_of_watching h (Session.loop?_eq_some.mpr ⟨c, hPhase, hLoop⟩)).turn
  have hFate := a.afterRound_fate r
  cases hEnd : r.fate with
  | going l =>
    rw [hEnd] at hFate hNext
    -- the session keeps what a turn does not touch
    obtain ⟨hClosed, hCancelled⟩ := r.turn_flags
    rw [← (Round.fate_going hEnd).1, hLoop] at hClosed hCancelled
    have hSame : l = ⟨l.coalescer, l.inbox, a.closed, a.cancelled⟩ := by
      rw [show a.closed = l.closed from hClosed.symm,
        show a.cancelled = l.cancelled from hCancelled.symm]
    rw [hFate]
    exact .going l (Session.loop?_eq_some.mpr ⟨l.coalescer, rfl, hSame⟩) hNext
  | returned =>
    rw [hEnd] at hFate hNext
    obtain ⟨engine, hEq⟩ := hFate
    rw [hEq]
    exact .returned engine rfl hReady hNext
  | crashed =>
    rw [hEnd] at hFate hNext
    obtain ⟨engine, reason, hEq⟩ := hFate
    rw [hEq]
    exact .crashed engine reason rfl hReady hNext

/-- A step of the task adds a round to the run of its loop, or sets the session up. -/
theorem watched_acts {rounds : List Round} (h : a.Watched rounds) (hOrder : a.InOrder)
    (hSession : s.session? id = some a) (hActs : s.Acts id a b) :
    b.Watched (rounds ++ (s.round? id).toList) := by
  have hNone (hPhase : a.phase = .connecting ∨ ∃ c, a.phase = .registering c) :
      rounds ++ (s.round? id).toList = [] := by
    have hNoRound := round?_eq_none hSession fun c hWatching => by
      rcases hPhase with hPhase | ⟨c', hPhase⟩ <;> cases hPhase.symm.trans hWatching
    rw [rounds_of_settingUp h hPhase, hNoRound]
    rfl
  cases hActs with
  | broke reason hPhase =>
    refine .failed none _ rfl ?_ (hNone (Or.inl hPhase))
    show a.ready ≠ _
    simp [hOrder.unready_of_connecting hPhase]
  | unconnected e hPhase => exact .failed none _ rfl (by simp) (hNone (Or.inl hPhase))
  | connected registrar hPhase =>
    exact .settingUp (Or.inr ⟨_, rfl⟩) (hNone (Or.inl hPhase))
  | unsubscribed c engine e hPhase =>
    exact .failed (some engine) _ rfl (by simp) (hNone (Or.inr ⟨c, hPhase⟩))
  | unwanted c engine hPhase hAbandoned =>
    refine .failed (some engine) _ rfl ?_ (hNone (Or.inr ⟨c, hPhase⟩))
    show a.ready ≠ _
    simp [(hOrder.of_registering hPhase).1]
  | subscribed c hPhase hResult =>
    -- the loop starts with the engine that holds the roots, and with nothing dirty
    obtain ⟨-, registrar, hNew⟩ := hOrder.of_registering hPhase
    obtain ⟨subscribed, hFrame⟩ := c.registerRoots_frame s.disk
    rw [hNone (Or.inr ⟨c, hPhase⟩), hFrame, hNew]
    exact .going _ (Session.loop?_eq_some.mpr ⟨_, rfl, rfl⟩) .start
  | round r hRound =>
    rw [hRound]
    exact watched_round h hOrder hSession hRound

/-! ## Runs -/

/-- The rounds of each session, as far as there is one, are a run of its loop. -/
def WatchedAll (s : Service) (rounds : SessionId → List Round) : Prop :=
  ∀ id, (s.session? id = none → rounds id = []) ∧
    ∀ session, s.session? id = some session → session.Watched (rounds id)

/-- Only a step of a session is a round. -/
theorem WatchedAll.unmoved {rounds : SessionId → List Round} (h : after.WatchedAll rounds)
    (hNone : ∀ id, s.roundIn? id move = none) :
    after.WatchedAll fun id => rounds id ++ (s.roundIn? id move).toList := by
  simpa only [hNone, Option.toList_none, List.append_nil] using h

theorem WatchedAll.call {rounds : SessionId → List Round} (h : s.WatchedAll rounds)
    (hAfter : SessionsAfter s after) : after.WatchedAll rounds := by
  refine fun id => ⟨fun hNone => (h id).1 ?_, fun b hb => ?_⟩
  · by_contra hSome
    obtain ⟨a, ha⟩ := Option.ne_none_iff_exists'.mp hSome
    obtain ⟨b, hb, -⟩ := hAfter.kept ha
    rw [hNone] at hb
    cases hb
  · rcases hAfter.session? hb with ⟨a, ha, rfl | rfl⟩ | ⟨rfl, dirs, grace, -, rfl⟩
    · exact (h id).2 _ ha
    · exact watched_cancelled ((h id).2 a ha)
    · -- a session that is spawned has not made a round
      exact .settingUp (Or.inl rfl) ((h _).1 (List.getElem?_eq_none (Nat.le_refl _)))

theorem WatchedAll.session {rounds : SessionId → List Round} (h : s.WatchedAll rounds)
    (hTidy : s.Tidy) (hTask : s.stepSession id = some after) :
    after.WatchedAll fun other => rounds other ++ (s.roundIn? other (.session id)).toList := by
  obtain ⟨session, b, hSession, hActs, hApart⟩ := stepSession_cases hTask
  intro other
  rw [hApart.session?]
  simp only [roundIn?_session]
  by_cases hHere : id = other
  · subst hHere
    rw [if_pos rfl, if_pos rfl, hSession]
    refine ⟨fun hNone => (by cases hNone), fun c hc => ?_⟩
    cases hc
    exact watched_acts ((h id).2 session hSession) (hTidy.inOrder id session hSession) hSession
      hActs
  · rw [if_neg hHere, if_neg hHere, Option.toList_none, List.append_nil]
    exact h other

theorem WatchedAll.undergo {rounds : SessionId → List Round} (h : s.WatchedAll rounds)
    (hTidy : s.Tidy) (o : Outside) : (s.undergo o).WatchedAll rounds := by
  intro id
  obtain ⟨change, hChanged, hChange⟩ := (undergo_undergone s o).sessions id
  rw [hChanged]
  refine ⟨fun hNone => (h id).1 (Option.map_eq_none_iff.mp hNone), fun b hb => ?_⟩
  obtain ⟨a, ha, rfl⟩ := Option.map_eq_some_iff.mp hb
  refine watched_undergoes ((h id).2 a ha) (hChange a) fun hSink => ?_
  obtain ⟨session, hSession, -, hOpen⟩ := hTidy.sink id hSink
  obtain rfl : a = session := Option.some.inj (ha.symm.trans hSession)
  exact hOpen

/-- **Every move** takes the loops on by the rounds it is. -/
theorem WatchedAll.step {rounds : SessionId → List Round} (h : s.WatchedAll rounds)
    (hTidy : s.Tidy) (hStep : Step s move more after) :
    after.WatchedAll fun id => rounds id ++ (s.roundIn? id move).toList := by
  cases hStep with
  | begin request =>
    refine WatchedAll.unmoved ?_ fun _ => rfl
    rcases begin_effect s request with ⟨-, hBegun⟩ | ⟨dirs, e, -, -, hBegun⟩ <;>
      exact hBegun ▸ h
  | call hCall =>
    obtain ⟨first, rest, hCalls⟩ := exists_call hCall
    have hSound := (hTidy.expects first (hCalls ▸ List.mem_cons_self)).sound
    exact (h.call ((stepCall_cases hCalls hCall).sessionsAfter hSound)).unmoved fun _ => rfl
  | session id hTask => exact h.session hTidy hTask
  | outside o => exact (h.undergo hTidy o).unmoved fun _ => rfl

/-- A run takes the loops on by the rounds it makes. -/
theorem WatchedAll.steps {rounds : SessionId → List Round} (h : s₀.WatchedAll rounds)
    (hTidy : s₀.Tidy) (run : Steps s₀ moves lives s) :
    s.WatchedAll fun id => rounds id ++ s₀.rounds id moves := by
  induction run with
  | nil => simpa only [Service.rounds, List.append_nil] using h
  | snoc run hStep ih =>
    have hNext := ih.step (run.tidy hTidy) hStep
    simpa only [run.rounds_snoc, List.append_assoc] using hNext

theorem Fresh.watched (h : s.Fresh) : s.WatchedAll fun _ => [] := by
  refine fun id => ⟨fun _ => rfl, fun session hSession => ?_⟩
  simp [session?, h.sessions] at hSession

/-- **In every run** the rounds of a session are a run of its loop. -/
theorem Steps.watched (run : Steps s₀ moves lives s) (hFresh : s₀.Fresh) :
    s.WatchedAll fun id => s₀.rounds id moves :=
  hFresh.watched.steps hFresh.tidy run

end Service

end TreeWatch
