import TreeWatch.Controller.Operations
import TreeWatch.Proofs.Calls
import TreeWatch.Proofs.Tasks

/-!
# Interleavings of calls, sessions and the world

A controller is used by any number of callers at once. A run is a sequence of moves, in any order:
a call is begun, the call that holds the lock goes on to the next point where it waits, a session
makes a step, or the world does something to all of them (`Outside`). No call is given up.

What a run does to its sessions is recorded move by move (`Life`): a session is spawned, its task
makes a step, a call tells it to end, a call joins its task. The record also says when a call
obtained the lock, and what it then asked for.

`Steps s₀ moves lives s` says that the moves lead from `s₀` to `s` and leave the record `lives`.
-/

namespace TreeWatch

/-! ## Moves -/

/-- What the world does to a service: messages are delivered, the channel of the engine is closed,
engines take requests by other rules or fail to connect, the disk changes, time passes. -/
inductive Outside where
  | deliver (message : Message)
  | closeChannel
  | rules (rules : Rules)
  | backend (backend : Backend)
  | edit (edit : Edit)
  | observe (disk : Disk)
  | clock (now : Nat)
  | hazard (hazard : Hazards)

/-- A move in a run. -/
inductive Move where
  /-- A caller begins a call; an update still has its directories to be checked. -/
  | begin (request : Request)
  | call
  | session (id : SessionId)
  | outside (o : Outside)

/-- What becomes of sessions, and which call obtained the lock to do what. -/
inductive Life where
  | granted (call : Nat) (request : Request)
  | spawned (id : SessionId)
  /-- The task of the session made a step: it connected its engine, subscribed its roots, or made a
  turn of its loop. A final flush is part of the last turn. -/
  | acted (id : SessionId)
  /-- A call took the session from its slot and told it to stop. -/
  | ended (id : SessionId)
  /-- A call waited for the task of the session and found it over. -/
  | joined (id : SessionId)
  deriving DecidableEq

/-- A phase and the same with an engine that takes requests by other rules. -/
inductive Phase.Alike : Phase → Phase → Prop where
  | refl (phase : Phase) : Alike phase phase
  | registering (c : Coalescer) (rules : Rules) :
      Alike (.registering c) (.registering { c with registrar := c.registrar.withRules rules })
  | watching (c : Coalescer) (rules : Rules) :
      Alike (.watching c) (.watching { c with registrar := c.registrar.withRules rules })

theorem Phase.Alike.isLive_eq {a b : Session} (h : a.phase.Alike b.phase) :
    b.isLive = a.isLive := by
  unfold Session.isLive
  generalize a.phase = before at h
  generalize b.phase = after at h
  cases h <;> rfl

theorem Phase.Alike.connecting {before after : Phase} (h : before.Alike after)
    (hAfter : after = .connecting) : before = .connecting := by
  cases h with
  | refl => exact hAfter
  | registering | watching => cases hAfter

theorem Phase.Alike.settingUp {before after : Phase} (h : before.Alike after)
    (hBefore : before = .connecting ∨ ∃ c, before = .registering c) :
    after = .connecting ∨ ∃ c, after = .registering c := by
  cases h with
  | refl => exact hBefore
  | registering c rules => exact Or.inr ⟨_, rfl⟩
  | watching c rules => rcases hBefore with hBefore | ⟨c', hBefore⟩ <;> cases hBefore

theorem Phase.Alike.of_watching {before after : Phase} {c : Coalescer} (h : before.Alike after)
    (hBefore : before = .watching c) : ∃ engine, engine.crash = c.registrar.engine.crash ∧
      after = .watching { c with registrar := { c.registrar with engine } } := by
  cases h with
  | refl => exact ⟨c.registrar.engine, rfl, hBefore⟩
  | registering => cases hBefore
  | watching c' rules =>
    cases hBefore
    exact ⟨{ c.registrar.engine with rules }, rfl, rfl⟩

theorem Phase.Alike.finished {before after : Phase} {engine : Option Engine}
    {crash : Option String} (h : before.Alike after) (hBefore : before = .finished engine crash) :
    after = .finished engine crash := by
  cases h with
  | refl => exact hBefore
  | registering | watching => cases hBefore

/-- A session whose task has not made a step. -/
structure Session.Unborn (session : Session) : Prop where
  live : session.isLive = true
  unready : session.ready = none

namespace Service

/-- The service with a call begun. -/
def begin (s : Service) : Request → Service
  | .start dirs grace => (s.beginStart dirs grace).1
  | .stop => s.beginStop.1
  | .update dirs => (s.beginUpdate dirs).1

/-- The service after something happened to it. -/
def undergo (s : Service) : Outside → Service
  | .deliver message => (s.deliver message).1
  | .closeChannel => s.closeChannel.1
  | .rules rules => s.withRules rules
  | .backend backend => { s with backend }
  | .edit edit => s.edit edit
  | .observe disk => s.observe disk
  | .clock now => { s with now }
  | .hazard hazard => { s with hazard }

/-- The session that the call with the lock is waiting for, to become ready or to end. -/
def awaited? (s : Service) : Option SessionId :=
  match s.calls with
  | [] => none
  | call :: _ =>
    match call.stage with
    | .waiting _ => none
    | .joining id _ | .starting id _ => some id

/-- The session that is held, or else the one that the call with the lock is waiting for. -/
def current? (s : Service) : Option SessionId :=
  s.slot <|> s.awaited?

/-! ## The record -/

/-- The call that obtains the lock in this step: one that waited for it up to now. -/
def grants (s : Service) : List Life :=
  match s.calls with
  | ⟨id, .waiting request⟩ :: _ => [.granted id request]
  | _ => []

/-- What a step of the call with the lock means to the sessions. A session that was awaited was
joined, unless it became ready and is held now; one that was held and is held no more was told to
end. -/
def livesOfCall (before after : Service) : List Life :=
  before.grants ++
    (before.awaited?.toList.filter fun id => after.slot ≠ some id).map .joined ++
    (before.slot.toList.filter fun id => after.slot ≠ some id).map .ended ++
    if before.sessions.length < after.sessions.length then [.spawned before.sessions.length] else []

/-- One move, with what it adds to the record. -/
inductive Step (s : Service) : Move → List Life → Service → Prop where
  | begin (request : Request) : Step s (.begin request) [] (s.begin request)
  | call {after : Service} (h : s.stepCall = some after) :
      Step s .call (livesOfCall s after) after
  | session {after : Service} (id : SessionId) (h : s.stepSession id = some after) :
      Step s (.session id) [.acted id] after
  | outside (o : Outside) : Step s (.outside o) [] (s.undergo o)

/-- A run: moves in order, with the record they leave. -/
inductive Steps (s₀ : Service) : List Move → List Life → Service → Prop where
  | nil : Steps s₀ [] [] s₀
  | snoc {moves : List Move} {lives more : List Life} {move : Move} {s after : Service} :
      Steps s₀ moves lives s → Step s move more after →
      Steps s₀ (moves ++ [move]) (lives ++ more) after

/-- One run after another is a run. -/
theorem Steps.append {s₀ s t : Service} {moves later : List Move} {lives more : List Life}
    (run : Steps s₀ moves lives s) (rest : Steps s later more t) :
    Steps s₀ (moves ++ later) (lives ++ more) t := by
  induction rest with
  | nil => rwa [List.append_nil, List.append_nil]
  | snoc _ hStep ih =>
    rw [← List.append_assoc, ← List.append_assoc]
    exact ih.snoc hStep

/-- A controller that has not been used yet, whatever the disk and the engines are like. -/
structure Unused (s : Service) : Prop where
  calls : s.calls = []
  sessions : s.sessions = []
  slot : s.slot = none

/-! ## What beginning a call does -/

/-- A call that is begun gets in line, or is an update that is refused. -/
theorem begin_effect (s : Service) (request : Request) :
    (∀ dirs, request = .update dirs → validateDirs s.disk dirs = .ok ()) ∧
        s.begin request = { s with calls := s.calls ++ [⟨s.freshCall, .waiting request⟩] } ∨
      ∃ dirs e, request = .update dirs ∧ validateDirs s.disk dirs = .error e ∧
        s.begin request =
          { s with answers := (s.freshCall, .error (.config e)) :: s.answers } := by
  cases request with
  | start dirs grace => exact Or.inl ⟨fun _ h => (by cases h), rfl⟩
  | stop => exact Or.inl ⟨fun _ h => (by cases h), rfl⟩
  | update dirs =>
    show (∀ dirs', _ → _) ∧ (s.beginUpdate dirs).1 = _ ∨
      ∃ dirs' e, _ ∧ _ ∧ (s.beginUpdate dirs).1 = _
    unfold beginUpdate
    cases hDirs : validateDirs s.disk dirs with
    | error e => exact Or.inr ⟨dirs, e, rfl, hDirs, rfl⟩
    | ok _ =>
      refine Or.inl ⟨fun dirs' h => ?_, rfl⟩
      cases h
      exact hDirs

/-! ## What a step of a call does -/

/-- What a step of the call with the lock does to the line of calls, to the slot and to the
sessions. -/
inductive CallEffect (s after : Service) : Prop where
  /-- A request is answered at once. -/
  | answered (call : Call) (rest : List Call) (request : Request)
      (hCalls : s.calls = call :: rest) (hStage : call.stage = .waiting request)
      (hLine : after.calls = rest) (hSlot : after.slot = s.slot)
      (hSessions : after.sessions = s.sessions)
  /-- A request starts a session. -/
  | launched (call : Call) (rest : List Call) (request : Request) (next : AfterStart)
      (fresh : Session)
      (hCalls : s.calls = call :: rest) (hStage : call.stage = .waiting request)
      (hEmpty : s.slot = none)
      (hLine : after.calls = ⟨call.id, .starting s.sessions.length next⟩ :: rest)
      (hSlot : after.slot = none) (hSessions : after.sessions = s.sessions ++ [fresh])
      (hFresh : fresh.Unborn)
  /-- A request ends the session that is held. -/
  | ending (call : Call) (rest : List Call) (request : Request) (id : SessionId)
      (next : Option Replacement)
      (hCalls : s.calls = call :: rest) (hStage : call.stage = .waiting request)
      (hHeld : s.slot = some id)
      (hLine : after.calls = ⟨call.id, .joining id next⟩ :: rest) (hSlot : after.slot = none)
      (hSessions : after.sessions =
        s.sessions.modify id fun session => { session with cancelled := true })
  /-- The session waited for has become ready, and is held. -/
  | started (call : Call) (rest : List Call) (id : SessionId) (next : AfterStart)
      (hCalls : s.calls = call :: rest) (hStage : call.stage = .starting id next)
      (hLine : after.calls = rest) (hSlot : after.slot = some id)
      (hSessions : after.sessions = s.sessions)
  /-- The session waited for is over, and that is the answer. -/
  | finished (call : Call) (rest : List Call) (id : SessionId) (session : Session)
      (hCalls : s.calls = call :: rest) (hAwaited : s.awaited? = some id)
      (hSession : s.session? id = some session)
      (hOver : session.isLive = false ∨ ∃ e, session.ready = some (.error e))
      (hLine : after.calls = rest) (hSlot : after.slot = s.slot)
      (hSessions : after.sessions = s.sessions)
  /-- The session waited for is over, and another one is started. -/
  | relaunched (call : Call) (rest : List Call) (id : SessionId) (session : Session)
      (next : AfterStart) (fresh : Session)
      (hCalls : s.calls = call :: rest) (hAwaited : s.awaited? = some id)
      (hSession : s.session? id = some session)
      (hOver : session.isLive = false ∨ ∃ e, session.ready = some (.error e))
      (hLine : after.calls = ⟨call.id, .starting s.sessions.length next⟩ :: rest)
      (hSlot : after.slot = s.slot) (hSessions : after.sessions = s.sessions ++ [fresh])
      (hFresh : fresh.Unborn)

variable {s after : Service}

theorem awaited?_head {call : Call} {rest : List Call} (hCalls : s.calls = call :: rest) :
    s.awaited? = call.stage.awaited? := by
  unfold awaited?
  rw [hCalls]
  obtain ⟨id, stage⟩ := call
  cases stage <;> rfl

/-- **Every step of a call** has one of the six effects. -/
theorem stepCall_effect (h : s.stepCall = some after) : CallEffect s after := by
  obtain ⟨call, rest, hCalls⟩ := exists_call h
  cases stepCall_cases hCalls h with
  | refused request e log hStage hWhy hAfter =>
    exact hAfter ▸ .answered call rest request hCalls hStage rfl rfl rfl
  | launched dirs grace log hStage hFree hDirs hAfter =>
    exact hAfter ▸ .launched call rest _ .answer _ hCalls hStage hFree rfl hFree rfl ⟨rfl, rfl⟩
  | ending request id next log hStage hHeld hEnds hAfter =>
    exact hAfter ▸ .ending call rest request id next hCalls hStage hHeld rfl rfl rfl
  | started id next session log hStage hSession hReady hAfter =>
    exact hAfter ▸ .started call rest id next hCalls hStage rfl rfl rfl
  | ended id session result log hAwaited hSession hVerdict hAfter =>
    exact hAfter ▸ .finished call rest id session hCalls ((awaited?_head hCalls).trans hAwaited)
      hSession hVerdict.ended rfl rfl rfl
  | another id session dirs grace next log hAwaited hSession hDirs hAnother hAfter =>
    exact hAfter ▸ .relaunched call rest id session next _ hCalls
      ((awaited?_head hCalls).trans hAwaited) hSession hAnother.ended rfl rfl rfl ⟨rfl, rfl⟩

/-! ## What a step of a session does -/

/-- A change of a session that reports an error only together with its end. -/
def Honest (f : Session → Session) : Prop :=
  ∀ session e, (f session).ready = some (.error e) →
    (f session).isLive = false ∨ session.ready = some (.error e)

/-- A step of a session: its task was not over, and nothing but the session itself changes of what
calls look at. -/
structure SessionEffect (s : Service) (id : SessionId) (after : Service) : Prop where
  live : ∃ session, s.session? id = some session ∧ session.isLive = true
  calls : after.calls = s.calls
  slot : after.slot = s.slot
  sessions : ∃ f, Honest f ∧ after.sessions = s.sessions.modify id f

/-- **Every step of a session** is one of a task that is not over. -/
theorem stepSession_effect {id : SessionId} (h : s.stepSession id = some after) :
    SessionEffect s id after := by
  obtain ⟨session, b, hSession, hActs, hApart⟩ := stepSession_cases h
  -- what becomes of the session is a change that could be made to any
  have hEffect (f : Session → Session) (hLive : session.isLive = true) (hHonest : Honest f)
      (hChange : after.sessions = s.sessions.set id (f session)) : SessionEffect s id after :=
    ⟨⟨session, hSession, hLive⟩, hApart.calls, hApart.slot, f, hHonest,
      hChange.trans (modify_eq_set hSession f).symm⟩
  have hSessions := hApart.sessions
  cases hActs with
  | broke reason hPhase =>
    exact hEffect (fun session => { session with phase := .finished none (some reason) })
      (by simp [Session.isLive, hPhase]) (fun _ _ _ => Or.inl rfl) hSessions
  | unconnected e hPhase =>
    exact hEffect
      (fun session => { session with ready := some (.error e), phase := .finished none none })
      (by simp [Session.isLive, hPhase]) (fun _ _ _ => Or.inl rfl) hSessions
  | connected registrar hPhase =>
    exact hEffect
      (fun session =>
        { session with phase := .registering (.new registrar session.roots session.grace) })
      (by simp [Session.isLive, hPhase]) (fun _ _ hReady => Or.inr hReady) hSessions
  | unsubscribed c engine e hPhase =>
    exact hEffect
      (fun session =>
        { session with ready := some (.error e), phase := .finished (some engine) none })
      (by simp [Session.isLive, hPhase]) (fun _ _ _ => Or.inl rfl) hSessions
  | unwanted c engine hPhase hAbandoned =>
    exact hEffect (fun session => { session with phase := .finished (some engine) none })
      (by simp [Session.isLive, hPhase]) (fun _ _ _ => Or.inl rfl) hSessions
  | subscribed c hPhase hResult =>
    exact hEffect
      (fun session =>
        { session with
          ready := some (.ok ())
          phase := .watching (c.registerRoots s.disk).coalescer })
      (by simp [Session.isLive, hPhase]) (fun _ _ hReady => by cases hReady) hSessions
  | round r hRound =>
    refine hEffect (·.afterRound r) ?_ (fun other e hReady => Or.inr ?_) hSessions
    · exact isLive_of_round hSession hRound
    · rwa [Session.afterRound_ready] at hReady

/-! ## What the world does -/

/-- What the world makes of a session: messages join its inbox if they go to it, its channel is
closed, its engine takes requests by other rules. Messages go to the session `sink` before and to
`sink'` afterwards. -/
structure Undergoes (sink sink' : Option SessionId) (id : SessionId) (a b : Session) : Prop where
  roots : b.roots = a.roots
  grace : b.grace = a.grace
  task : b.task = a.task
  phase : a.phase.Alike b.phase
  inbox : a.inbox <+: b.inbox
  deaf : a.closed = true → b.inbox = a.inbox ∨ sink = some id
  closed : b.closed = a.closed ∨ b.closed = true ∧ sink = some id ∧ sink' = none
  cancelled : b.cancelled = a.cancelled
  ready : b.ready = a.ready
  abandoned : b.abandoned = a.abandoned

/-- What the world does: sessions are all that changes of what calls and sessions depend on. -/
structure Undergone (s after : Service) : Prop where
  calls : after.calls = s.calls
  slot : after.slot = s.slot
  status : after.status = s.status
  shown : after.shown = s.shown
  answers : after.answers = s.answers
  sink : after.sink = s.sink ∨ after.sink = none
  sessions : ∀ id, ∃ change, after.session? id = (s.session? id).map change ∧
    ∀ a, Undergoes s.sink after.sink id a (change a)

/-- What is there afterwards was there before. -/
theorem Undergone.before {id : SessionId} {b : Session} (h : s.Undergone after)
    (hSession : after.session? id = some b) :
    ∃ a, s.session? id = some a ∧ Undergoes s.sink after.sink id a b := by
  obtain ⟨change, hChanged, hChange⟩ := h.sessions id
  rw [hChanged] at hSession
  obtain ⟨a, ha, rfl⟩ := Option.map_eq_some_iff.mp hSession
  exact ⟨a, ha, hChange a⟩

/-- What was there before is there afterwards. -/
theorem Undergone.later {id : SessionId} {a : Session} (h : s.Undergone after)
    (hSession : s.session? id = some a) :
    ∃ b, after.session? id = some b ∧ Undergoes s.sink after.sink id a b := by
  obtain ⟨change, hChanged, hChange⟩ := h.sessions id
  rw [hChanged, hSession]
  exact ⟨change a, rfl, hChange a⟩

theorem Undergoes.refl (sink sink' : Option SessionId) (id : SessionId) (a : Session) :
    Undergoes sink sink' id a a :=
  ⟨rfl, rfl, rfl, .refl _, List.prefix_rfl, fun _ => Or.inl rfl, Or.inl rfl, rfl, rfl, rfl⟩

/-- The world does nothing to the sessions. -/
theorem Undergone.beside (hCalls : after.calls = s.calls) (hSlot : after.slot = s.slot)
    (hStatus : after.status = s.status) (hShown : after.shown = s.shown)
    (hAnswers : after.answers = s.answers) (hSink : after.sink = s.sink)
    (hSessions : after.sessions = s.sessions) : s.Undergone after :=
  ⟨hCalls, hSlot, hStatus, hShown, hAnswers, Or.inl hSink, fun id =>
    ⟨fun a => a, by rw [Option.map_id', session?, hSessions]; rfl, fun a => .refl _ _ id a⟩⟩

/-- The world does something to the session that messages go to. -/
theorem Undergone.modified {id : SessionId} (f : Session → Session) (hCalls : after.calls = s.calls)
    (hSlot : after.slot = s.slot) (hStatus : after.status = s.status)
    (hShown : after.shown = s.shown) (hAnswers : after.answers = s.answers)
    (hSink : after.sink = s.sink ∨ after.sink = none)
    (hSessions : after.sessions = s.sessions.modify id f)
    (hChange : ∀ a, Undergoes s.sink after.sink id a (f a)) : s.Undergone after := by
  refine ⟨hCalls, hSlot, hStatus, hShown, hAnswers, hSink, fun other =>
    ⟨fun a => if id = other then f a else a, ?_, fun a => ?_⟩⟩
  · rw [session?, hSessions, List.getElem?_modify]
    rfl
  · dsimp only
    split
    · next hHere => exact hHere ▸ hChange a
    · exact .refl ..

/-- The world does something to each session, and all hear as before. -/
theorem Undergone.mapped (f : Session → Session) (hCalls : after.calls = s.calls)
    (hSlot : after.slot = s.slot) (hStatus : after.status = s.status)
    (hShown : after.shown = s.shown) (hAnswers : after.answers = s.answers)
    (hSink : after.sink = s.sink) (hSessions : after.sessions = s.sessions.map f)
    (hChange : ∀ id a, Undergoes s.sink after.sink id a (f a)) : s.Undergone after :=
  ⟨hCalls, hSlot, hStatus, hShown, hAnswers, Or.inl hSink, fun id =>
    ⟨f, by rw [session?, hSessions, List.getElem?_map]; rfl, hChange id⟩⟩

theorem Undergone.trans_beside {later : Service} (h : s.Undergone after)
    (hCalls : later.calls = after.calls) (hSlot : later.slot = after.slot)
    (hStatus : later.status = after.status) (hShown : later.shown = after.shown)
    (hAnswers : later.answers = after.answers) (hSink : later.sink = after.sink)
    (hSessions : later.sessions = after.sessions) : s.Undergone later := by
  refine ⟨hCalls.trans h.calls, hSlot.trans h.slot, hStatus.trans h.status, hShown.trans h.shown,
    hAnswers.trans h.answers, hSink ▸ h.sink, fun id => ?_⟩
  rw [session?, hSessions, hSink]
  exact h.sessions id

theorem deliver_undergone (s : Service) (message : Message) :
    s.Undergone (s.deliver message).1 := by
  unfold deliver
  -- a message gets into the inbox of the session that listens, or is lost
  cases hSink : s.sink with
  | none => exact .beside rfl rfl rfl rfl rfl rfl rfl
  | some id =>
    cases hSession : s.session? id with
    | none => simpa only [hSession] using .beside rfl rfl rfl rfl rfl rfl rfl
    | some session =>
      simp only [hSession]
      split
      · refine .modified _ rfl rfl rfl rfl rfl (Or.inl rfl) rfl fun a => ?_
        exact ⟨rfl, rfl, rfl, .refl _, List.prefix_append .., fun _ => Or.inr hSink, Or.inl rfl,
          rfl, rfl, rfl⟩
      · exact .beside rfl rfl rfl rfl rfl rfl rfl

theorem closeChannel_undergone (s : Service) : s.Undergone s.closeChannel.1 := by
  unfold closeChannel
  cases hSink : s.sink with
  | none => exact .beside rfl rfl rfl rfl rfl rfl rfl
  | some id =>
    refine .modified _ rfl rfl rfl rfl rfl (Or.inr rfl) rfl fun a => ?_
    exact ⟨rfl, rfl, rfl, .refl _, List.prefix_rfl, fun _ => Or.inl rfl,
      Or.inr ⟨rfl, hSink, rfl⟩, rfl, rfl, rfl⟩

theorem withRules_undergone (s : Service) (rules : Rules) : s.Undergone (s.withRules rules) := by
  refine .mapped _ rfl rfl rfl rfl rfl rfl rfl fun id a => ?_
  split
  · next c hPhase =>
    exact ⟨rfl, rfl, rfl, hPhase ▸ .registering c rules, List.prefix_rfl, fun _ => Or.inl rfl,
      Or.inl rfl, rfl, rfl, rfl⟩
  · next c hPhase =>
    exact ⟨rfl, rfl, rfl, hPhase ▸ .watching c rules, List.prefix_rfl, fun _ => Or.inl rfl,
      Or.inl rfl, rfl, rfl, rfl⟩
  · exact .refl ..

theorem reportChanges_undergone (s : Service) (before : Disk) :
    s.Undergone (s.reportChanges before) := by
  unfold reportChanges
  split
  · refine .mapped _ rfl rfl rfl rfl rfl rfl rfl fun id a => ?_
    dsimp only
    split
    · next c hPhase hOpen =>
      exact ⟨rfl, rfl, rfl, .refl _, List.prefix_append ..,
        fun hClosed => absurd (hOpen.symm.trans hClosed) (by simp), Or.inl rfl, rfl, rfl, rfl⟩
    · exact .refl ..
  · exact .beside rfl rfl rfl rfl rfl rfl rfl

theorem touchReloader_eq (s : Service) (touched : Path → Bool) :
    ∃ reloader, s.touchReloader touched = { s with reloader } := by
  unfold touchReloader
  split
  · split
    · exact ⟨_, rfl⟩
    · exact ⟨s.reloader, rfl⟩
  · exact ⟨s.reloader, rfl⟩

/-- A disk that others have changed: sessions hear of it, and then the reloader does. -/
theorem undergone_of_disk (s : Service) (disk before : Disk) (touched : Path → Bool) :
    s.Undergone (({ s with disk }.reportChanges before).touchReloader touched) := by
  have hReport : s.Undergone ({ s with disk }.reportChanges before) := by
    obtain ⟨hCalls, hSlot, hStatus, hShown, hAnswers, hSink, hSessions⟩ :=
      reportChanges_undergone { s with disk } before
    exact ⟨hCalls, hSlot, hStatus, hShown, hAnswers, hSink, hSessions⟩
  obtain ⟨reloader, hTouch⟩ := touchReloader_eq ({ s with disk }.reportChanges before) touched
  rw [hTouch]
  exact hReport.trans_beside rfl rfl rfl rfl rfl rfl rfl

/-- **Whatever the world does**, calls, slot, status and answers stay, and sessions go on. -/
theorem undergo_undergone (s : Service) (o : Outside) : s.Undergone (s.undergo o) := by
  cases o with
  | deliver message => exact deliver_undergone s message
  | closeChannel => exact closeChannel_undergone s
  | rules rules => exact withRules_undergone s rules
  | edit edit =>
    show s.Undergone (s.edit edit)
    unfold Service.edit
    exact undergone_of_disk s (s.disk.edit edit) s.disk _
  | observe disk =>
    show s.Undergone (s.observe disk)
    unfold observe
    exact undergone_of_disk s disk s.disk _
  | backend backend | clock now | hazard hazard => exact .beside rfl rfl rfl rfl rfl rfl rfl

/-- The sessions keep what calls can tell of them while they wait: whether the task is over, and
what it reported. -/
def SameOutcomes (before after : List Session) : Prop :=
  after.map (fun session => (session.isLive, session.ready)) =
    before.map fun session => (session.isLive, session.ready)

theorem sameOutcomes_modify {sessions : List Session} {id : SessionId} {f : Session → Session}
    (h : ∀ session, (f session).isLive = session.isLive ∧ (f session).ready = session.ready) :
    SameOutcomes sessions (sessions.modify id f) := by
  apply List.ext_getElem?
  intro i
  rw [List.getElem?_map, List.getElem?_map, List.getElem?_modify]
  cases sessions[i]? with
  | none => rfl
  | some session =>
    by_cases hHere : id = i
    · simp [hHere, h session]
    · simp [hHere]

theorem undergo_effect (s : Service) (o : Outside) :
    (s.undergo o).calls = s.calls ∧ (s.undergo o).slot = s.slot ∧
      SameOutcomes s.sessions (s.undergo o).sessions := by
  have hUndergone := undergo_undergone s o
  refine ⟨hUndergone.calls, hUndergone.slot, List.ext_getElem? fun id => ?_⟩
  obtain ⟨change, hChanged, hChange⟩ := hUndergone.sessions id
  unfold session? at hChanged
  rw [List.getElem?_map, List.getElem?_map, hChanged, Option.map_map]
  refine Option.map_congr fun a _ => ?_
  exact Prod.ext (hChange a).phase.isLive_eq (hChange a).ready

end Service

end TreeWatch
