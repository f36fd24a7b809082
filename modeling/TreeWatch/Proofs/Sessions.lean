import TreeWatch.Proofs.Dedup
import TreeWatch.Proofs.Interleaving

/-!
# Sessions in a run

What is true of every session at every moment of a run, whatever calls, tasks and the world do: it
watches some directories, no two of which agree, it reports when its phase says so and not before,
and what it was started with, what it reported and how it ended stay for good.

Main results:
  * `Steps.tidy`: every run from a fresh controller keeps `Tidy`
  * `Steps.evolves`: sessions only go forward in a run (`Session.Evolves`)
-/

namespace TreeWatch

/-! ## Directories to watch -/

/-- Directories that a session can be started over. -/
structure Watchable (dirs : List Path) : Prop where
  nonempty : dirs ≠ []
  apart : dirs.Pairwise fun p q => ¬ p.SameAs q

theorem watchable_dedup {dirs : List Path} (h : dirs ≠ []) : Watchable (Path.dedup dirs) :=
  ⟨fun hNone => h (Path.dedup_eq_nil.mp hNone), Path.dedup_pairwise dirs⟩

/-- The directories of an update that gets in line were checked, so there are some. -/
theorem ne_nil_of_validateDirs {d : Disk} {dirs : List Path} (h : validateDirs d dirs = .ok ()) :
    dirs ≠ [] := by
  rintro rfl
  cases h

/-! ## One session -/

namespace Session

/-- What a session has reported by the phase it is in. -/
inductive InOrder (session : Session) : Prop where
  | connecting (hPhase : session.phase = .connecting) (hReady : session.ready = none)
      (hOpen : session.closed = false)
  | registering (registrar : Registrar)
      (hPhase : session.phase = .registering (.new registrar session.roots session.grace))
      (hReady : session.ready = none)
  | watching (c : Coalescer) (hPhase : session.phase = .watching c)
      (hReady : session.ready = some (.ok ()))
  | finished (engine : Option Engine) (crash : Option String)
      (hPhase : session.phase = .finished engine crash)

/-- How a session may be later: with what it was started with, and if it was told to stop, has
reported or is over, then so it stays. -/
structure Evolves (a b : Session) : Prop where
  roots : b.roots = a.roots
  grace : b.grace = a.grace
  task : b.task = a.task
  cancelled : a.cancelled = true → b.cancelled = true
  ready : a.ready ≠ none → b.ready = a.ready
  ended : a.isLive = false → b.phase = a.phase ∧ b.ready = a.ready

theorem Evolves.refl (a : Session) : a.Evolves a :=
  ⟨rfl, rfl, rfl, id, fun _ => rfl, fun _ => ⟨rfl, rfl⟩⟩

theorem Evolves.trans {a b c : Session} (h : a.Evolves b) (h' : b.Evolves c) : a.Evolves c where
  roots := h'.roots.trans h.roots
  grace := h'.grace.trans h.grace
  task := h'.task.trans h.task
  cancelled hCancelled := h'.cancelled (h.cancelled hCancelled)
  ready hReady := by
    have hSame := h.ready hReady
    exact (h'.ready (hSame ▸ hReady)).trans hSame
  ended hOver := by
    obtain ⟨hPhase, hReady⟩ := h.ended hOver
    have hStill : b.isLive = false := by rwa [isLive, hPhase]
    obtain ⟨hPhase', hReady'⟩ := h'.ended hStill
    exact ⟨hPhase'.trans hPhase, hReady'.trans hReady⟩

/-- A start that failed has failed for good. -/
theorem Evolves.startError? {a b : Session} {e : WatchError} (h : a.Evolves b)
    (hError : a.startError? = some e) : b.startError? = some e := by
  cases hReady : a.ready with
  | some result =>
    have hSame : b.ready = some result := (h.ready (by simp [hReady])).trans hReady
    rw [Session.startError?, hReady] at hError
    rw [Session.startError?, hSame]
    cases result with
    | ok _ => cases hError
    | error e' => exact hError
  | none =>
    have hOver : a.isLive = false :=
      (Service.over_of_startError hError).resolve_right (by simp [hReady])
    obtain ⟨hPhase, hSame⟩ := h.ended hOver
    rw [← hError, Session.startError?, Session.startError?, hPhase, hSame, h.task]

theorem InOrder.unready_of_connecting {session : Session} (h : session.InOrder)
    (hPhase : session.phase = .connecting) : session.ready = none := by
  cases h with
  | connecting hHere hReady hOpen => exact hReady
  | registering registrar hHere hReady => exact hReady
  | watching c hHere hReady => rw [hPhase] at hHere; cases hHere
  | finished engine crash hHere => rw [hPhase] at hHere; cases hHere

theorem InOrder.of_registering {session : Session} {c : Coalescer} (h : session.InOrder)
    (hPhase : session.phase = .registering c) :
    session.ready = none ∧ ∃ registrar, c = .new registrar session.roots session.grace := by
  cases h with
  | connecting hHere hReady hOpen => rw [hPhase] at hHere; cases hHere
  | registering registrar hHere hReady =>
    rw [hPhase] at hHere
    cases hHere
    exact ⟨hReady, registrar, rfl⟩
  | watching c' hHere hReady => rw [hPhase] at hHere; cases hHere
  | finished engine crash hHere => rw [hPhase] at hHere; cases hHere

theorem InOrder.of_watching {session : Session} {c : Coalescer} (h : session.InOrder)
    (hPhase : session.phase = .watching c) : session.ready = some (.ok ()) := by
  cases h with
  | connecting hHere hReady hOpen => rw [hPhase] at hHere; cases hHere
  | registering registrar hHere hReady => rw [hPhase] at hHere; cases hHere
  | watching c' hHere hReady => exact hReady
  | finished engine crash hHere => rw [hPhase] at hHere; cases hHere

/-! ## Steps and the world -/

variable {s : Service} {id : SessionId} {a b : Session} {sink sink' : Option SessionId}

theorem Evolves.of_live (hLive : a.isLive = true) (hRoots : b.roots = a.roots)
    (hGrace : b.grace = a.grace) (hTask : b.task = a.task) (hCancelled : b.cancelled = a.cancelled)
    (hReady : a.ready = none ∨ b.ready = a.ready) : a.Evolves b where
  roots := hRoots
  grace := hGrace
  task := hTask
  cancelled h := hCancelled.trans h
  ready h := hReady.resolve_left h
  ended hOver := by rw [hLive] at hOver; cases hOver

theorem evolves_cancelled (a : Session) : a.Evolves { a with cancelled := true } :=
  ⟨rfl, rfl, rfl, fun _ => rfl, fun _ => rfl, fun _ => ⟨rfl, rfl⟩⟩

theorem InOrder.cancelled (h : a.InOrder) : { a with cancelled := true }.InOrder := by
  cases h with
  | connecting hPhase hReady hOpen => exact .connecting hPhase hReady hOpen
  | registering registrar hPhase hReady => exact .registering registrar hPhase hReady
  | watching c hPhase hReady => exact .watching c hPhase hReady
  | finished engine crash hPhase => exact .finished engine crash hPhase

/-- A step of its task takes a session on. -/
theorem InOrder.acts (h : a.InOrder) (hActs : s.Acts id a b) (hSession : s.session? id = some a) :
    b.InOrder ∧ a.Evolves b := by
  cases hActs with
  | broke reason hPhase =>
    have hLive : a.isLive = true := by simp [isLive, hPhase]
    exact ⟨.finished _ _ rfl, .of_live hLive rfl rfl rfl rfl (Or.inr rfl)⟩
  | unconnected e hPhase =>
    have hLive : a.isLive = true := by simp [isLive, hPhase]
    exact ⟨.finished _ _ rfl,
      .of_live hLive rfl rfl rfl rfl (Or.inl (h.unready_of_connecting hPhase))⟩
  | connected registrar hPhase =>
    have hLive : a.isLive = true := by simp [isLive, hPhase]
    exact ⟨.registering registrar rfl (h.unready_of_connecting hPhase),
      .of_live hLive rfl rfl rfl rfl (Or.inr rfl)⟩
  | unsubscribed c engine e hPhase =>
    have hLive : a.isLive = true := by simp [isLive, hPhase]
    exact ⟨.finished _ _ rfl, .of_live hLive rfl rfl rfl rfl (Or.inl (h.of_registering hPhase).1)⟩
  | unwanted c engine hPhase hAbandoned =>
    have hLive : a.isLive = true := by simp [isLive, hPhase]
    exact ⟨.finished _ _ rfl, .of_live hLive rfl rfl rfl rfl (Or.inr rfl)⟩
  | subscribed c hPhase hResult =>
    have hLive : a.isLive = true := by simp [isLive, hPhase]
    exact ⟨.watching _ rfl rfl, .of_live hLive rfl rfl rfl rfl (Or.inl (h.of_registering hPhase).1)⟩
  | round r hRound =>
    obtain ⟨c, hPhase, -⟩ := Service.watching_of_round hSession hRound
    have hLive : a.isLive = true := by simp [isLive, hPhase]
    obtain ⟨phase, inbox, hEq, hOutcome⟩ := a.afterRound_frame r
    rw [hEq]
    refine ⟨?_, .of_live hLive rfl rfl rfl rfl (Or.inr rfl)⟩
    rcases hOutcome with ⟨c', rfl⟩ | ⟨engine, crash, rfl⟩
    · exact .watching c' rfl (h.of_watching hPhase)
    · exact .finished engine crash rfl

/-- A step leaves the channel as it is, and the engine is connected after the first one. -/
theorem acts_connects (hActs : s.Acts id a b) :
    b.closed = a.closed ∧ b.phase ≠ .connecting := by
  cases hActs with
  | broke | unconnected | connected | unsubscribed | unwanted | subscribed => exact ⟨rfl, by simp⟩
  | round r hRound =>
    obtain ⟨phase, inbox, hEq, hOutcome⟩ := a.afterRound_frame r
    rw [hEq]
    rcases hOutcome with ⟨c, rfl⟩ | ⟨engine, crash, rfl⟩ <;> exact ⟨rfl, by simp⟩

/-- Whatever the world does to a session, it goes on from where it is. -/
theorem InOrder.undergoes (h : a.InOrder) (hUndergoes : Service.Undergoes sink sink' id a b)
    (hDeaf : a.phase = .connecting → sink ≠ some id) : b.InOrder ∧ a.Evolves b := by
  have hPhase := hUndergoes.phase
  refine ⟨?_, hUndergoes.roots, hUndergoes.grace, hUndergoes.task,
    fun hCancelled => hUndergoes.cancelled.trans hCancelled, fun _ => hUndergoes.ready, ?_⟩
  · cases h with
    | connecting hHere hReady hOpen =>
      -- nobody can close a channel that was not opened yet
      have hClosed := hUndergoes.closed.resolve_right fun hNow => hDeaf hHere hNow.2.1
      rw [hHere] at hPhase
      generalize hAfter : b.phase = after at hPhase
      cases hPhase
      exact .connecting hAfter (hUndergoes.ready.trans hReady) (hClosed.trans hOpen)
    | registering registrar hHere hReady =>
      rw [hHere] at hPhase
      generalize hAfter : b.phase = after at hPhase
      have hNew (registrar : Registrar) : Coalescer.new registrar a.roots a.grace =
          .new registrar b.roots b.grace := by rw [hUndergoes.roots, hUndergoes.grace]
      cases hPhase with
      | refl =>
        exact .registering registrar (hAfter.trans (congrArg _ (hNew _)))
          (hUndergoes.ready.trans hReady)
      | registering c rules =>
        exact .registering (registrar.withRules rules) (hAfter.trans (congrArg _ (hNew _)))
          (hUndergoes.ready.trans hReady)
    | watching c hHere hReady =>
      rw [hHere] at hPhase
      generalize hAfter : b.phase = after at hPhase
      cases hPhase with
      | refl => exact .watching _ hAfter (hUndergoes.ready.trans hReady)
      | watching c rules => exact .watching _ hAfter (hUndergoes.ready.trans hReady)
    | finished engine crash hHere =>
      rw [hHere] at hPhase
      generalize hAfter : b.phase = after at hPhase
      cases hPhase
      exact .finished engine crash hAfter
  · intro hOver
    unfold isLive at hOver
    generalize a.phase = before at hPhase hOver
    refine ⟨?_, hUndergoes.ready⟩
    generalize b.phase = after at hPhase
    cases hPhase with
    | refl => rfl
    | registering | watching => cases hOver

end Session

/-! ## All sessions -/

/-- A call that will start a session has directories to start it over. -/
def Stage.Sound : Stage → Prop
  | .waiting (.update dirs) => dirs ≠ []
  | .joining _ (some r) => Watchable r.dirs ∧ Watchable r.previous
  | .starting _ (.orRestore previous _) => Watchable previous
  | _ => True

namespace Service

/-- A controller that has not been used yet, and shows so. -/
structure Fresh (s : Service) : Prop extends s.Unused where
  status : s.status = {}
  sink : s.sink = none

/-- What a call expects of the session it waits for. -/
structure Expects (s : Service) (call : Call) : Prop where
  sound : call.stage.Sound
  starting : ∀ id next, call.stage = .starting id next → ∃ session, s.session? id = some session
  joining : ∀ id next, call.stage = .joining id next → ∃ session, s.session? id = some session ∧
    session.ready = some (.ok ()) ∧ session.cancelled = true

/-- What is true of the sessions of a controller. -/
structure Tidy (s : Service) : Prop where
  inOrder : ∀ id session, s.session? id = some session → session.InOrder
  watchable : ∀ id session, s.session? id = some session → Watchable session.roots
  sink : ∀ id, s.sink = some id →
    ∃ session, s.session? id = some session ∧ session.phase ≠ .connecting ∧ session.closed = false
  held : ∀ id, s.slot = some id →
    ∃ session, s.session? id = some session ∧ session.ready = some (.ok ())
  expects : ∀ call ∈ s.calls, s.Expects call

variable {s s₀ after : Service} {moves : List Move} {lives more : List Life} {move : Move}
  {id : Nat} {a b : Session} {first : Call} {rest : List Call}

theorem Fresh.tidy (h : s.Fresh) : s.Tidy where
  inOrder id session hSession := by simp [session?, h.sessions] at hSession
  watchable id session hSession := by simp [session?, h.sessions] at hSession
  sink id hSink := by simp [h.sink] at hSink
  held id hSlot := by simp [h.slot] at hSlot
  expects call hCall := by simp [h.calls] at hCall

/-- No messages go to a session that is about to connect an engine. -/
theorem Tidy.deaf (h : s.Tidy) (hSession : s.session? id = some a) :
    a.phase = .connecting → s.sink ≠ some id := by
  intro hPhase hSink
  obtain ⟨session, hSame, hConnected, -⟩ := h.sink id hSink
  rw [hSession] at hSame
  cases hSame
  exact hConnected hPhase

/-- What a step of a call does to the sessions. -/
inductive SessionsAfter (s after : Service) : Prop where
  | same (hSessions : after.sessions = s.sessions)
  | cancelled (id : SessionId) (hHeld : s.slot = some id)
      (hSessions : after.sessions =
        s.sessions.modify id fun session => { session with cancelled := true })
  | spawned (dirs : List Path) (grace : UInt64) (hDirs : Watchable dirs)
      (hSessions : after.sessions = s.sessions ++ [s.spawn dirs grace])

theorem CallStep.sessionsAfter (h : CallStep s first rest after) (hSound : first.stage.Sound) :
    SessionsAfter s after := by
  cases h with
  | refused request e log hStage hWhy hAfter => exact .same (hAfter ▸ rfl)
  | launched dirs grace log hStage hFree hDirs hAfter =>
    exact .spawned _ grace (watchable_dedup fun hNone => hDirs (Path.dedup_eq_nil.mpr hNone))
      (hAfter ▸ rfl)
  | ending request id next log hStage hHeld hEnds hAfter => exact .cancelled id hHeld (hAfter ▸ rfl)
  | started id next session log hStage hSession hReady hAfter => exact .same (hAfter ▸ rfl)
  | ended id session result log hAwaited hSession hVerdict hAfter => exact .same (hAfter ▸ rfl)
  | another id session dirs grace next log hAwaited hSession hDirs hAnother hAfter =>
    refine .spawned dirs grace ?_ (hAfter ▸ rfl)
    generalize first.stage = stage at hAnother hSound
    cases hAnother with
    | replacing id engine r hPhase => exact hSound.1
    | restoring id e previous grace hError => exact hSound

/-- After a step of a call a session is as it was, was told to stop, or is fresh. -/
theorem SessionsAfter.session? (h : SessionsAfter s after) (hSession : after.session? id = some b) :
    (∃ a, s.session? id = some a ∧ (b = a ∨ b = { a with cancelled := true })) ∨
      id = s.sessions.length ∧ ∃ dirs grace, Watchable dirs ∧ b = s.spawn dirs grace := by
  unfold Service.session? at hSession ⊢
  cases h with
  | same hSessions => exact Or.inl ⟨b, hSessions ▸ hSession, Or.inl rfl⟩
  | cancelled other hHeld hSessions =>
    rw [hSessions, List.getElem?_modify] at hSession
    obtain ⟨a, ha, rfl⟩ := Option.map_eq_some_iff.mp hSession
    refine Or.inl ⟨a, ha, ?_⟩
    split
    · exact Or.inr rfl
    · exact Or.inl rfl
  | spawned dirs grace hDirs hSessions =>
    rw [hSessions, List.getElem?_append] at hSession
    split at hSession
    · exact Or.inl ⟨b, hSession, Or.inl rfl⟩
    · next hNew =>
      rw [List.getElem?_singleton] at hSession
      split at hSession
      · next hLast => exact Or.inr ⟨by omega, dirs, grace, hDirs, (Option.some.inj hSession).symm⟩
      · cases hSession

/-- No step of a call loses a session. -/
theorem SessionsAfter.kept (h : SessionsAfter s after) (hSession : s.session? id = some a) :
    ∃ b, after.session? id = some b ∧ (b = a ∨ b = { a with cancelled := true }) := by
  unfold Service.session? at hSession ⊢
  cases h with
  | same hSessions => exact ⟨a, hSessions ▸ hSession, Or.inl rfl⟩
  | cancelled other hHeld hSessions =>
    rw [hSessions, List.getElem?_modify, hSession]
    refine ⟨_, rfl, ?_⟩
    split
    · exact Or.inr rfl
    · exact Or.inl rfl
  | spawned dirs grace hDirs hSessions =>
    rw [hSessions, List.getElem?_append_left (List.getElem?_eq_some_iff.mp hSession).1]
    exact ⟨a, hSession, Or.inl rfl⟩

/-- After a step of its task a session is what that made of it, and all others are as they were. -/
theorem Apart.session? {other : SessionId} (h : s.Apart id b after) :
    after.session? other =
      if id = other then (s.session? other).map fun _ => b else s.session? other := by
  unfold Service.session?
  rw [h.sessions, List.getElem?_set]
  split
  · next hHere =>
    subst hHere
    split
    · next hLt => rw [List.getElem?_eq_getElem hLt]; rfl
    · next hGe => rw [List.getElem?_eq_none (by omega)]; rfl
  · rfl

theorem Apart.changed (h : s.Apart id b after) (hSession : s.session? id = some a) :
    after.session? id = some b := by
  rw [h.session?, if_pos rfl, hSession]
  rfl

theorem Apart.session_cases {other : SessionId} {c : Session} (h : s.Apart id b after)
    (hSession : s.session? id = some a) (hc : after.session? other = some c) :
    id = other ∧ b = c ∨ id ≠ other ∧ s.session? other = some c := by
  by_cases hHere : id = other
  · subst hHere
    exact Or.inl ⟨rfl, Option.some.inj ((h.changed hSession).symm.trans hc)⟩
  · rw [h.session?, if_neg hHere] at hc
    exact Or.inr ⟨hHere, hc⟩

/-- **Every move** takes each session on. -/
theorem Tidy.evolves (h : s.Tidy) (hStep : Step s move more after)
    (hSession : s.session? id = some a) : ∃ b, after.session? id = some b ∧ a.Evolves b := by
  cases hStep with
  | begin request =>
    rcases begin_effect s request with ⟨-, hBegun⟩ | ⟨dirs, e, -, -, hBegun⟩ <;>
      exact hBegun ▸ ⟨a, hSession, .refl a⟩
  | call hCall =>
    obtain ⟨call, rest, hCalls⟩ := exists_call hCall
    have hSound := (h.expects call (hCalls ▸ List.mem_cons_self)).sound
    obtain ⟨b, hAfter, rfl | rfl⟩ :=
      ((stepCall_cases hCalls hCall).sessionsAfter hSound).kept hSession
    · exact ⟨b, hAfter, .refl b⟩
    · exact ⟨_, hAfter, a.evolves_cancelled⟩
  | session other hTask =>
    obtain ⟨session, b, hOther, hActs, hApart⟩ := stepSession_cases hTask
    rw [hApart.session?]
    split
    · next hHere =>
      subst hHere
      obtain rfl : session = a := Option.some.inj (hOther.symm.trans hSession)
      exact ⟨b, by rw [hSession]; rfl, ((h.inOrder _ _ hOther).acts hActs hOther).2⟩
    · exact ⟨a, hSession, .refl a⟩
  | outside o =>
    obtain ⟨b, hb, hUndergoes⟩ := (undergo_undergone s o).later hSession
    exact ⟨b, hb, ((h.inOrder _ _ hSession).undergoes hUndergoes (h.deaf hSession)).2⟩

/-- Every session is there later, and further on. -/
def Forward (s after : Service) : Prop :=
  ∀ id a, s.session? id = some a → ∃ b, after.session? id = some b ∧ a.Evolves b

theorem Tidy.forward (h : s.Tidy) (hStep : Step s move more after) : s.Forward after :=
  fun _ _ hSession => h.evolves hStep hSession

/-- A call that waits finds what it expects later, too. -/
theorem Expects.later {call : Call} (h : s.Expects call)
    (hNext : s.Forward after) :
    after.Expects call where
  sound := h.sound
  starting id next hStage := by
    obtain ⟨a, ha⟩ := h.starting id next hStage
    obtain ⟨b, hb, -⟩ := hNext id a ha
    exact ⟨b, hb⟩
  joining id next hStage := by
    obtain ⟨a, ha, hReady, hCancelled⟩ := h.joining id next hStage
    obtain ⟨b, hb, hEvolves⟩ := hNext id a ha
    exact ⟨b, hb, (hEvolves.ready (by simp [hReady])).trans hReady, hEvolves.cancelled hCancelled⟩

theorem expects_waiting {call : Call} {request : Request} (hStage : call.stage = .waiting request)
    (hSound : call.stage.Sound) : s.Expects call :=
  ⟨hSound, fun _ _ h => (by cases hStage.symm.trans h), fun _ _ h => (by cases hStage.symm.trans h)⟩

/-- The session that is held stays there and ready. -/
theorem Tidy.still_held (h : s.Tidy)
    (hNext : s.Forward after)
    (hSlot : after.slot = s.slot) : ∀ id, after.slot = some id →
      ∃ session, after.session? id = some session ∧ session.ready = some (.ok ()) := by
  intro id hHeld
  obtain ⟨a, ha, hReady⟩ := h.held id (hSlot ▸ hHeld)
  obtain ⟨b, hb, hEvolves⟩ := hNext id a ha
  exact ⟨b, hb, (hEvolves.ready (by simp [hReady])).trans hReady⟩

/-- As long as calls wait for what they waited for, only the sessions have to be looked at. -/
theorem Tidy.carried (h : s.Tidy)
    (hNext : s.Forward after)
    (hOld : ∀ id b, after.session? id = some b →
      ∃ a, s.session? id = some a ∧ a.Evolves b ∧ b.InOrder)
    (hSink : ∀ id, after.sink = some id → ∃ session, after.session? id = some session ∧
      session.phase ≠ .connecting ∧ session.closed = false)
    (hSlot : after.slot = s.slot)
    (hCalls : ∀ call ∈ after.calls, call ∈ s.calls ∨ after.Expects call) : after.Tidy where
  inOrder id b hSession := (hOld id b hSession).choose_spec.2.2
  watchable id b hSession := by
    obtain ⟨a, ha, hEvolves, -⟩ := hOld id b hSession
    exact hEvolves.roots ▸ h.watchable id a ha
  sink := hSink
  held := h.still_held hNext hSlot
  expects call hCall :=
    (hCalls call hCall).elim (fun hKnown => (h.expects call hKnown).later hNext) fun hNew => hNew

theorem Tidy.begin (h : s.Tidy) (request : Request) : (s.begin request).Tidy := by
  have hNext := h.forward (.begin request)
  have hSame : (s.begin request).sessions = s.sessions ∧ (s.begin request).sink = s.sink ∧
      (s.begin request).slot = s.slot := by
    rcases begin_effect s request with ⟨-, hBegun⟩ | ⟨dirs, e, -, -, hBegun⟩ <;>
      rw [hBegun] <;> exact ⟨rfl, rfl, rfl⟩
  have hSession (id : SessionId) : (s.begin request).session? id = s.session? id := by
    unfold Service.session?
    rw [hSame.1]
  refine h.carried hNext ?_ ?_ hSame.2.2 ?_
  · intro id b hb
    rw [hSession] at hb
    exact ⟨b, hb, .refl b, h.inOrder id b hb⟩
  · intro id hSink
    rw [hSession]
    exact h.sink id (hSame.2.1 ▸ hSink)
  · rcases begin_effect s request with ⟨hValid, hBegun⟩ | ⟨dirs, e, -, -, hBegun⟩
    · rw [hBegun]
      intro call hCall
      rcases List.mem_append.mp hCall with hKnown | hNew
      · exact Or.inl hKnown
      · rw [List.mem_singleton] at hNew
        subst hNew
        refine Or.inr (expects_waiting rfl ?_)
        cases request with
        | start dirs grace => trivial
        | stop => trivial
        | update dirs => exact ne_nil_of_validateDirs (hValid dirs rfl)
    · rw [hBegun]
      exact fun call hCall => Or.inl hCall

theorem Tidy.session {other : SessionId} (h : s.Tidy) (hTask : s.stepSession other = some after) :
    after.Tidy := by
  obtain ⟨session, b, hOther, hActs, hApart⟩ := stepSession_cases hTask
  have hNext := h.forward (.session other hTask)
  obtain ⟨hOrder, hEvolves⟩ := (h.inOrder _ _ hOther).acts hActs hOther
  refine h.carried hNext ?_ ?_ hApart.slot ?_
  · intro id c hc
    rcases hApart.session_cases hOther hc with ⟨rfl, rfl⟩ | ⟨-, hSame⟩
    · exact ⟨session, hOther, hEvolves, hOrder⟩
    · exact ⟨c, hSame, .refl c, h.inOrder id c hSame⟩
  · intro id hSink
    obtain ⟨hClosed, hConnected⟩ := Session.acts_connects hActs
    rw [hApart.session?]
    rcases hApart.sink with hSame | ⟨hNew, old, c, hOld, hPhase, -⟩
    · -- messages go where they went before
      obtain ⟨a, ha, hPhase, hOpen⟩ := h.sink id (hSame ▸ hSink)
      split
      · next hHere =>
        subst hHere
        obtain rfl : session = a := Option.some.inj (hOther.symm.trans ha)
        exact ⟨b, by rw [hOther]; rfl, hConnected, hClosed.trans hOpen⟩
      · exact ⟨a, ha, hPhase, hOpen⟩
    · -- they go to the session that connected an engine right now
      obtain rfl : other = id := Option.some.inj (hNew.symm.trans hSink)
      obtain rfl : session = old := Option.some.inj (hOther.symm.trans hOld)
      rw [if_pos rfl, hOther]
      refine ⟨b, rfl, hConnected, hClosed.trans ?_⟩
      cases h.inOrder _ _ hOther with
      | connecting hHere hReady hOpen => exact hOpen
      | registering registrar hHere hReady => rw [hPhase] at hHere; cases hHere
      | watching c hHere hReady => rw [hPhase] at hHere; cases hHere
      | finished engine crash hHere => rw [hPhase] at hHere; cases hHere
  · exact fun call hCall => Or.inl (hApart.calls ▸ hCall)

theorem Tidy.undergo (h : s.Tidy) (o : Outside) : (s.undergo o).Tidy := by
  have hNext := h.forward (.outside o)
  have hUndergone := undergo_undergone s o
  refine h.carried hNext ?_ ?_ hUndergone.slot fun call hCall => Or.inl (hUndergone.calls ▸ hCall)
  · intro id b hb
    obtain ⟨a, ha, hUndergoes⟩ := hUndergone.before hb
    obtain ⟨hOrder, hEvolves⟩ := (h.inOrder id a ha).undergoes hUndergoes (h.deaf ha)
    exact ⟨a, ha, hEvolves, hOrder⟩
  · intro id hSink
    have hBefore : s.sink = some id :=
      (hUndergone.sink.resolve_right (by simp [hSink])) ▸ hSink
    obtain ⟨a, ha, hPhase, hOpen⟩ := h.sink id hBefore
    obtain ⟨b, hb, hUndergoes⟩ := hUndergone.later ha
    have hClosed := hUndergoes.closed.resolve_right fun hNow => by simp [hSink] at hNow
    refine ⟨b, hb, fun hConnecting => hPhase ?_, hClosed.trans hOpen⟩
    exact hUndergoes.phase.connecting hConnecting

/-- A step of the first call keeps sessions in order if that call finds what it expects. -/
theorem Tidy.moved (h : s.Tidy) (hCall : s.stepCall = some after) (hAfter : SessionsAfter s after)
    (hSink : after.sink = s.sink)
    (hHeld : after.slot = s.slot ∨ ∀ id, after.slot = some id →
      ∃ session, after.session? id = some session ∧ session.ready = some (.ok ()))
    (hLine : ∀ call ∈ after.calls, call ∈ s.calls ∨ after.Expects call) : after.Tidy := by
  have hNext := h.forward (.call hCall)
  refine ⟨?_, ?_, ?_, hHeld.elim (h.still_held hNext) fun hNew => hNew, fun call hMem =>
    (hLine call hMem).elim (fun hKnown => (h.expects call hKnown).later hNext) fun hNew => hNew⟩
  · intro id b hb
    rcases hAfter.session? hb with ⟨a, ha, rfl | rfl⟩ | ⟨-, dirs, grace, -, rfl⟩
    · exact h.inOrder id _ ha
    · exact (h.inOrder id a ha).cancelled
    · exact .connecting rfl rfl rfl
  · intro id b hb
    rcases hAfter.session? hb with ⟨a, ha, rfl | rfl⟩ | ⟨-, dirs, grace, hDirs, rfl⟩
    · exact h.watchable id _ ha
    · exact h.watchable id a ha
    · exact hDirs
  · intro id hHere
    obtain ⟨a, ha, hPhase, hOpen⟩ := h.sink id (hSink ▸ hHere)
    obtain ⟨b, hb, rfl | rfl⟩ := hAfter.kept ha
    · exact ⟨b, hb, hPhase, hOpen⟩
    · exact ⟨_, hb, hPhase, hOpen⟩

/-- The call that starts a session finds it at the end of the list. -/
theorem expects_launched (s : Service) (dirs : List Path) (grace : UInt64) (next : AfterStart)
    (log : List LogLine) (hSound : (Stage.starting s.sessions.length next).Sound) :
    ∀ call ∈ (s.launched first rest dirs grace next log).calls,
      call ∈ rest ∨ (s.launched first rest dirs grace next log).Expects call := by
  intro call hCall
  rcases List.mem_cons.mp hCall with rfl | hRest
  · refine Or.inr ⟨hSound, ?_, fun id next hStage => by cases hStage⟩
    intro id next hStage
    cases hStage
    exact ⟨s.spawn dirs grace, List.getElem?_concat_length⟩
  · exact Or.inl hRest

theorem Tidy.call (h : s.Tidy) (hCall : s.stepCall = some after) : after.Tidy := by
  obtain ⟨first, rest, hCalls⟩ := exists_call hCall
  have hSound := (h.expects first (hCalls ▸ List.mem_cons_self)).sound
  have hRest : ∀ call ∈ rest, call ∈ s.calls := fun call hCall =>
    hCalls ▸ List.mem_cons_of_mem _ hCall
  have hStep := stepCall_cases hCalls hCall
  have hMoved := h.moved hCall (hStep.sessionsAfter hSound)
  cases hStep with
  | refused request e log hStage hWhy hAfter =>
    subst hAfter
    exact hMoved rfl (Or.inl rfl) fun call hCall => Or.inl (hRest call hCall)
  | launched dirs grace log hStage hFree hDirs hAfter =>
    subst hAfter
    refine hMoved rfl (Or.inl rfl) fun call hCall => ?_
    exact (expects_launched s _ grace .answer log trivial call hCall).imp_left (hRest call)
  | ending request id next log hStage hHeld hEnds hAfter =>
    subst hAfter
    refine hMoved rfl (Or.inr fun id hHeld => by cases hHeld) fun call hCall => ?_
    rcases List.mem_cons.mp hCall with rfl | hMem
    · -- the session that was held has been told to stop
      obtain ⟨session, hSession, hReady⟩ := h.held id hHeld
      refine Or.inr ⟨?_, fun id next hStage => (by cases hStage), fun other next' hStage' => ?_⟩
      · rw [hStage] at hSound
        cases hEnds with
        | stop => trivial
        | update dirs session hSession =>
          exact ⟨watchable_dedup hSound, h.watchable id session hSession⟩
      · cases hStage'
        refine ⟨{ session with cancelled := true }, ?_, hReady, rfl⟩
        show (s.sessions.modify id _)[id]? = _
        rw [modify_eq_set hSession, List.getElem?_set_self
          (List.getElem?_eq_some_iff.mp hSession).1]
    · exact Or.inl (hRest call hMem)
  | started id next session log hStage hSession hReady hAfter =>
    subst hAfter
    refine hMoved rfl (Or.inr ?_) fun call hCall => Or.inl (hRest call hCall)
    intro other hHeld
    cases hHeld
    exact ⟨session, hSession, hReady⟩
  | ended id session result log hAwaited hSession hVerdict hAfter =>
    subst hAfter
    exact hMoved rfl (Or.inl rfl) fun call hCall => Or.inl (hRest call hCall)
  | another id session dirs grace next log hAwaited hSession hDirs hAnother hAfter =>
    subst hAfter
    refine hMoved rfl (Or.inl rfl) fun call hCall => ?_
    refine (expects_launched s.setStopped dirs grace next log ?_ call hCall).imp_left (hRest call)
    -- what is to be restored is what was watched before
    generalize first.stage = stage at hAnother hSound
    cases hAnother with
    | replacing id engine r hPhase => exact hSound.2
    | restoring id e previous grace hError => trivial

/-- **Every move** keeps sessions in order. -/
theorem Tidy.step (h : s.Tidy) (hStep : Step s move more after) : after.Tidy := by
  cases hStep with
  | begin request => exact h.begin request
  | call hCall => exact h.call hCall
  | session id hTask => exact h.session hTask
  | outside o => exact h.undergo o

/-- **Every run** keeps sessions in order. -/
theorem Steps.tidy (run : Steps s₀ moves lives s) (h : s₀.Tidy) : s.Tidy := by
  induction run with
  | nil => exact h
  | snoc run hStep ih => exact ih.step hStep

/-- **In every run** sessions go forward. -/
theorem Steps.evolves (run : Steps s₀ moves lives s) (h : s₀.Tidy)
    (hSession : s₀.session? id = some a) : ∃ b, s.session? id = some b ∧ a.Evolves b := by
  induction run with
  | nil => exact ⟨a, hSession, .refl a⟩
  | snoc run hStep ih =>
    obtain ⟨b, hb, hFirst⟩ := ih
    obtain ⟨c, hc, hThen⟩ := (run.tidy h).evolves hStep hb
    exact ⟨c, hc, hFirst.trans hThen⟩

end Service

end TreeWatch
