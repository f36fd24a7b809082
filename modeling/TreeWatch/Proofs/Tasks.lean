import TreeWatch.Controller.Step
import TreeWatch.Proofs.Failures
import TreeWatch.Proofs.Rounds

/-!
# What a step of a session does

The task of a session goes through its phases: it connects an engine, subscribes the roots and then
makes the turns of its loop, until it is over. A step changes the session itself
(`Session.Acts`) and what lies around it, and leaves alone everything that calls answer for: the
line of calls, the slot, the status and the answers (`Service.Apart`).

Main results:
  * `stepSession_cases`: every step of a session is one of its phase, and leaves calls alone
  * `stepSession_ready`: a session that is being set up, or that was told to stop, is never waiting
-/

namespace TreeWatch

namespace Coalescer

/-- Subscriptions are all that subscribing the roots changes. -/
theorem registerAll_frame (d : Disk) (todo : List Path) :
    ∀ c : Coalescer, ∃ registrar, (c.registerAll d todo).coalescer = { c with registrar } := by
  induction todo with
  | nil => exact fun c => ⟨c.registrar, rfl⟩
  | cons root rest ih =>
    intro c
    rw [registerAll]
    cases hTree : (c.registrar.registerTree d root).result with
    | error e => exact ⟨_, rfl⟩
    | ok added =>
      obtain ⟨registrar, hRest⟩ := ih { c with
        registrar := (c.registrar.registerTree d root).registrar }
      exact ⟨registrar, hRest⟩

theorem registerRoots_frame (c : Coalescer) (d : Disk) :
    ∃ registrar, (c.registerRoots d).coalescer = { c with registrar } :=
  registerAll_frame d c.roots c

end Coalescer

namespace Loop

/-- The round that a loop makes now, unless it has to wait. -/
def round? (l : Loop) (h : Hazards) (d : Disk) (now : Nat) : Option Round :=
  match taken : l.turn h d now with
  | none => none
  | some turn => some ⟨l, h, d, now, turn, taken⟩

theorem round?_eq_some {l : Loop} {h : Hazards} {d : Disk} {now : Nat} {r : Round} :
    l.round? h d now = some r ↔ r.loop = l ∧ r.hazard = h ∧ r.disk = d ∧ r.now = now := by
  constructor
  · intro hRound
    unfold round? at hRound
    split at hRound
    · cases hRound
    · cases hRound
      exact ⟨rfl, rfl, rfl, rfl⟩
  · rintro ⟨rfl, rfl, rfl, rfl⟩
    unfold round?
    split
    · next hNone => exact absurd (r.taken.symm.trans hNone) (by simp)
    · next turn hTurn =>
      obtain rfl : turn = r.turn := Option.some.inj (hTurn.symm.trans r.taken)
      rfl

end Loop

/-- A loop that was told to stop does so in its next round. -/
theorem Round.leaves_of_cancelled {r : Round} (h : r.loop.cancelled = true) : r.leaves = true := by
  unfold Round.leaves
  cases r.did with
  | event event rest hGoing hInbox hAction hLoop => rw [h] at hGoing; cases hGoing
  | failure error rest hGoing hInbox hAction hLoop => rw [h] at hGoing; cases hGoing
  | expired hGoing hInbox hOpen hDue hAction hLoop => rw [h] at hGoing; cases hGoing
  | leftClean hStop hIdle hAction hLoop => rw [hAction]
  | leftFlushing hStop hArmed hAction hLoop => rw [hAction]

namespace Session

/-- The loop of a session that is watching. -/
def loop? (session : Session) : Option Loop :=
  match session.phase with
  | .watching c => some ⟨c, session.inbox, session.closed, session.cancelled⟩
  | _ => none

/-- The session after a round of its loop. -/
def afterRound (session : Session) (r : Round) : Session :=
  let engine := r.turn.loop.coalescer.registrar.engine
  match engine.crash with
  | some reason => { session with phase := .finished (some engine) (some reason) }
  | none =>
    if r.leaves then { session with phase := .finished (some engine) none }
    else { session with phase := .watching r.turn.loop.coalescer, inbox := r.turn.loop.inbox }

/-- A session goes the way of its loop. -/
theorem afterRound_fate (session : Session) (r : Round) :
    match r.fate with
    | .going l =>
      session.afterRound r = { session with phase := .watching l.coalescer, inbox := l.inbox }
    | .returned => ∃ engine, session.afterRound r = { session with phase := .finished engine none }
    | .crashed => ∃ engine reason,
      session.afterRound r = { session with phase := .finished engine (some reason) } := by
  unfold afterRound Round.fate Coalescer.crashed
  dsimp only
  cases r.turn.loop.coalescer.registrar.engine.crash with
  | some reason => exact ⟨_, reason, rfl⟩
  | none =>
    cases r.leaves with
    | true => exact ⟨_, rfl⟩
    | false => rfl

/-- A round changes the phase and the inbox; the session is watching afterwards, or over. -/
theorem afterRound_frame (session : Session) (r : Round) : ∃ phase inbox,
    session.afterRound r = { session with phase, inbox } ∧
      ((∃ c, phase = .watching c) ∨ ∃ engine crash, phase = .finished engine crash) := by
  have hFate := session.afterRound_fate r
  split at hFate
  · exact ⟨_, _, hFate, Or.inl ⟨_, rfl⟩⟩
  · obtain ⟨engine, hEq⟩ := hFate
    exact ⟨_, session.inbox, hEq, Or.inr ⟨_, _, rfl⟩⟩
  · obtain ⟨engine, reason, hEq⟩ := hFate
    exact ⟨_, session.inbox, hEq, Or.inr ⟨_, _, rfl⟩⟩

/-- A session whose loop was left is over. -/
theorem afterRound_over {session : Session} {r : Round} (h : r.leaves = true) :
    (session.afterRound r).isLive = false := by
  unfold afterRound
  dsimp only
  split
  · rfl
  · rw [if_pos h]
    rfl

/-- A round is no report. -/
@[simp] theorem afterRound_ready (session : Session) (r : Round) :
    (session.afterRound r).ready = session.ready := by
  obtain ⟨phase, inbox, hEq, -⟩ := session.afterRound_frame r
  rw [hEq]

theorem loop?_eq_some {session : Session} {l : Loop} : session.loop? = some l ↔
    ∃ c, session.phase = .watching c ∧
      l = ⟨c, session.inbox, session.closed, session.cancelled⟩ := by
  unfold loop?
  split
  · next c hPhase => simp [hPhase, eq_comm]
  · next hPhase =>
    constructor
    · intro h
      cases h
    · rintro ⟨c, hWatching, -⟩
      exact absurd hWatching (hPhase c)

end Session

namespace Service

/-- A session is another one afterwards, and what calls answer for is as it was. -/
structure Apart (s : Service) (id : SessionId) (session : Session) (after : Service) : Prop where
  calls : after.calls = s.calls
  slot : after.slot = s.slot
  status : after.status = s.status
  shown : after.shown = s.shown
  answers : after.answers = s.answers
  sessions : after.sessions = s.sessions.set id session
  sink : after.sink = s.sink ∨
    after.sink = some id ∧ ∃ old c, s.session? id = some old ∧ old.phase = .connecting ∧
      session.phase = .registering c

/-- The round that the loop of a session makes if it is its turn now. -/
def round? (s : Service) (id : SessionId) : Option Round :=
  ((s.session? id).bind Session.loop?).bind fun l => l.round? s.hazard s.disk s.now

/-- What a step of its task makes of a session. -/
inductive Acts (s : Service) (id : SessionId) (session : Session) : Session → Prop where
  /-- Connecting an engine crashed. -/
  | broke (reason : String) (hPhase : session.phase = .connecting) :
      Acts s id session { session with phase := .finished none (some reason) }
  /-- No engine could be connected. -/
  | unconnected (e : WatchError) (hPhase : session.phase = .connecting) (hError : e.OfSession) :
      Acts s id session { session with ready := some (.error e), phase := .finished none none }
  | connected (registrar : Registrar) (hPhase : session.phase = .connecting) :
      Acts s id session
        { session with phase := .registering (.new registrar session.roots session.grace) }
  /-- Some root could not be subscribed. -/
  | unsubscribed (c : Coalescer) (engine : Engine) (e : WatchError)
      (hPhase : session.phase = .registering c) (hError : e.OfSession) :
      Acts s id session
        { session with ready := some (.error e), phase := .finished (some engine) none }
  /-- Nobody waits for the session any more. -/
  | unwanted (c : Coalescer) (engine : Engine) (hPhase : session.phase = .registering c)
      (hAbandoned : session.abandoned = true) :
      Acts s id session { session with phase := .finished (some engine) none }
  | subscribed (c : Coalescer) (hPhase : session.phase = .registering c)
      (hResult : (c.registerRoots s.disk).result = .ok ()) :
      Acts s id session
        { session with
          ready := some (.ok ())
          phase := .watching (c.registerRoots s.disk).coalescer }
  | round (r : Round) (hRound : s.round? id = some r) :
      Acts s id session (session.afterRound r)

variable {s after : Service} {id : SessionId} {session : Session}

/-! ## Changing one session -/

theorem modify_eq_set (hSession : s.session? id = some session) (f : Session → Session) :
    s.sessions.modify id f = s.sessions.set id (f session) := by
  have : Inhabited Session := ⟨session⟩
  rw [List.modify_eq_set, show s.sessions[id]? = some session from hSession]
  rfl

theorem session?_modified (hSession : s.session? id = some session) (f : Session → Session) :
    (s.modifySession id f).session? id = some (f session) := by
  show (s.sessions.modify id f)[id]? = _
  rw [modify_eq_set hSession, List.getElem?_set_self (List.getElem?_eq_some_iff.mp hSession).1]

theorem report_enterPhase (s : Service) (id : SessionId) (ready : Except WatchError Unit)
    (phase : Phase) : (s.report id ready).enterPhase id phase =
      s.modifySession id fun session => { session with ready := some ready, phase } := by
  let reported (session : Session) : Session := { session with ready := some ready }
  let entered (session : Session) : Session := { session with phase }
  exact congrArg (fun sessions => { s with sessions })
    (List.modify_modify_eq reported entered id s.sessions)

/-- Whatever else happens, changing one session leaves calls alone. -/
theorem Apart.modified (hSession : s.session? id = some session) (f : Session → Session)
    (t : Service) (hCalls : t.calls = s.calls) (hSlot : t.slot = s.slot)
    (hStatus : t.status = s.status) (hShown : t.shown = s.shown) (hAnswers : t.answers = s.answers)
    (hSessions : t.sessions = s.sessions) (hSink : t.sink = s.sink) :
    s.Apart id (f session) (t.modifySession id f) where
  calls := hCalls
  slot := hSlot
  status := hStatus
  shown := hShown
  answers := hAnswers
  sessions := by
    show t.sessions.modify id f = _
    rw [hSessions, modify_eq_set hSession]
  sink := Or.inl hSink

/-- A session that reports an error is over. -/
theorem Apart.failed (hSession : s.session? id = some session) (e : WatchError)
    (engine : Option Engine) (t : Service) (hCalls : t.calls = s.calls) (hSlot : t.slot = s.slot)
    (hStatus : t.status = s.status) (hShown : t.shown = s.shown) (hAnswers : t.answers = s.answers)
    (hSessions : t.sessions = s.sessions) (hSink : t.sink = s.sink) :
    s.Apart id { session with ready := some (.error e), phase := .finished engine none }
      ((t.report id (.error e)).enterPhase id (.finished engine none)) := by
  rw [report_enterPhase]
  exact .modified hSession
    (fun session => { session with ready := some (.error e), phase := .finished engine none })
    t hCalls hSlot hStatus hShown hAnswers hSessions hSink

/-! ## The phases -/

theorem connect_cases (hSession : s.session? id = some session)
    (hPhase : session.phase = .connecting) :
    ∃ b, s.Acts id session b ∧ s.Apart id b (s.connect id session) := by
  unfold connect
  dsimp only
  split
  · exact ⟨_, .broke _ hPhase, .modified hSession
      (fun session => { session with phase := .finished none (some "connect") })
      { s.contact .connected with backend := _ } rfl rfl rfl rfl rfl rfl rfl⟩
  · split
    · exact ⟨_, .unconnected _ hPhase (.engine _), .failed hSession _ none
        { s.contact .connected with backend := _ } rfl rfl rfl rfl rfl rfl rfl⟩
    · -- the engine that is connected now is the one that messages go to
      exact ⟨_, .connected _ hPhase, rfl, rfl, rfl, rfl, rfl, modify_eq_set hSession _,
        Or.inr ⟨rfl, session, _, hSession, hPhase, rfl⟩⟩

theorem register_cases {c : Coalescer} (hSession : s.session? id = some session)
    (hPhase : session.phase = .registering c) :
    ∃ b, s.Acts id session b ∧ s.Apart id b (s.register id session c) := by
  let t : Service := { s with tasks := s.tasks + 1 }.note (.session session.roots)
    (c.registerRoots s.disk).notices
  let engine := (c.registerRoots s.disk).coalescer.registrar.engine
  have hFailed (e : WatchError) (hError : e.OfSession) : ∃ b, s.Acts id session b ∧
      s.Apart id b (((t.contact .released).report id (.error e)).enterPhase id
        (.finished (some engine) none)) :=
    ⟨_, .unsubscribed c engine e hPhase hError,
      .failed hSession e (some engine) (t.contact .released) rfl rfl rfl rfl rfl rfl rfl⟩
  unfold register
  dsimp only
  split
  · exact hFailed _ (.aborted _)
  · next hResult => exact hFailed _ (Coalescer.registerAll_error hResult)
  · next hResult =>
    split
    · next hAbandoned =>
      exact ⟨_, .unwanted c engine hPhase hAbandoned, .modified hSession
        (fun session => { session with phase := .finished (some engine) none })
        (t.contact .released) rfl rfl rfl rfl rfl rfl rfl⟩
    · rw [report_enterPhase]
      let watching := Phase.watching (c.registerRoots s.disk).coalescer
      obtain ⟨hCalls, hSlot, hStatus, hShown, hAnswers, hSessions, hSink⟩ :=
        Apart.modified hSession
          (fun session => { session with ready := some (.ok ()), phase := watching }) t
          rfl rfl rfl rfl rfl rfl rfl
      exact ⟨_, .subscribed c hPhase hResult, hCalls, hSlot, hStatus, hShown, hAnswers, hSessions,
        hSink⟩

theorem round?_eq_some {r : Round} : s.round? id = some r ↔
    (∃ session, s.session? id = some session ∧ session.loop? = some r.loop) ∧
      r.hazard = s.hazard ∧ r.disk = s.disk ∧ r.now = s.now := by
  simp only [round?, Option.bind_eq_some_iff, Loop.round?_eq_some]
  constructor
  · rintro ⟨l, hLoop, rfl, hRest⟩
    exact ⟨hLoop, hRest⟩
  · rintro ⟨hLoop, hRest⟩
    exact ⟨r.loop, hLoop, rfl, hRest⟩

theorem watching_of_round {r : Round} (hSession : s.session? id = some session)
    (hRound : s.round? id = some r) : ∃ c, session.phase = .watching c ∧
      r.loop = ⟨c, session.inbox, session.closed, session.cancelled⟩ := by
  obtain ⟨⟨other, hOther, hLoop⟩, -⟩ := round?_eq_some.mp hRound
  obtain rfl : session = other := Option.some.inj (hSession.symm.trans hOther)
  exact Session.loop?_eq_some.mp hLoop

theorem isLive_of_round {r : Round} (hSession : s.session? id = some session)
    (hRound : s.round? id = some r) : session.isLive = true := by
  obtain ⟨c, hPhase, -⟩ := watching_of_round hSession hRound
  simp [Session.isLive, hPhase]

theorem turned_cases (hSession : s.session? id = some session) (r : Round) :
    s.Apart id (session.afterRound r) (s.turned id session r.turn) := by
  let t (tasks : Nat) : Service :=
    { s with disk := r.turn.disk, tasks }.note (.session session.roots) r.turn.notices
  let engine := r.turn.loop.coalescer.registrar.engine
  unfold turned Session.afterRound Round.leaves
  dsimp only
  cases hCrash : r.turn.loop.coalescer.registrar.engine.crash with
  | some reason =>
    exact .modified hSession
      (fun session => { session with phase := .finished (some engine) (some reason) })
      ((t _).contact .released) rfl rfl rfl rfl rfl rfl rfl
  | none =>
    cases hAction : r.turn.action with
    | left bumps =>
      exact .modified hSession
        (fun session => { session with phase := .finished (some engine) none })
        (((t _).note (.session session.roots) [.watchEnded]).contact .released)
        rfl rfl rfl rfl rfl rfl rfl
    | received message | flushed bumps =>
      exact .modified hSession
        (fun session =>
          { session with phase := .watching r.turn.loop.coalescer, inbox := r.turn.loop.inbox })
        (t _) rfl rfl rfl rfl rfl rfl rfl

/-! ## Every step -/

/-- **Every step of a session** is one of its phase, and leaves alone what calls answer for. -/
theorem stepSession_cases (h : s.stepSession id = some after) :
    ∃ a b, s.session? id = some a ∧ s.Acts id a b ∧ s.Apart id b after := by
  -- a session that is not there makes no step
  obtain ⟨session, hSession⟩ : ∃ session, s.session? id = some session := by
    rw [← Option.isSome_iff_exists, Option.isSome_iff_ne_none]
    intro hNone
    simp [stepSession, hNone] at h
  refine ⟨session, ?_⟩
  unfold stepSession at h
  rw [hSession] at h
  cases hPhase : session.phase with
  | connecting =>
    simp only [hPhase, Option.some.injEq] at h
    obtain ⟨b, hEffect⟩ := connect_cases hSession hPhase
    exact ⟨b, hSession, h ▸ hEffect⟩
  | registering c =>
    simp only [hPhase, Option.some.injEq] at h
    obtain ⟨b, hEffect⟩ := register_cases hSession hPhase
    exact ⟨b, hSession, h ▸ hEffect⟩
  | watching c =>
    simp only [hPhase, Option.map_eq_some_iff] at h
    obtain ⟨turn, hTurn, rfl⟩ := h
    let r : Round := ⟨_, s.hazard, s.disk, s.now, turn, hTurn⟩
    have hLoop : session.loop? = some r.loop := by rw [Session.loop?, hPhase]
    have hRound : s.round? id = some r :=
      round?_eq_some.mpr ⟨⟨session, hSession, hLoop⟩, rfl, rfl, rfl⟩
    exact ⟨_, hSession, .round r hRound, turned_cases hSession r⟩
  | finished engine crash => simp [hPhase] at h

/-- A session that is being set up can go on, and so can one that was told to stop. -/
theorem stepSession_ready (hSession : s.session? id = some session)
    (hReady : session.phase = .connecting ∨ (∃ c, session.phase = .registering c) ∨
      ∃ c, session.phase = .watching c ∧ session.cancelled = true) :
    (s.stepSession id).isSome = true := by
  unfold stepSession
  rw [hSession]
  rcases hReady with hPhase | ⟨c, hPhase⟩ | ⟨c, hPhase, hCancelled⟩
  · simp only [hPhase, Option.isSome_some]
  · simp only [hPhase, Option.isSome_some]
  · simp only [hPhase, hCancelled, Loop.turn, if_true, Option.map_some, Option.isSome_some]

end Service

end TreeWatch
