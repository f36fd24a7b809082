import TreeWatch.Controller.Service
import TreeWatch.Path.Dedup

/-!
# Steps

What a call and a session do next. `Service.stepCall` moves the call that holds the lock,
`Service.stepSession` a session; each goes from one point at which the task has to wait to the
next, and is `none` if the task still has to wait. Everything that others may see in between is a
state between two steps.

`Service.settle` lets them all run until every one of them waits, the call first.
-/

namespace TreeWatch

namespace Service

/-! ## Calls -/

/-- Starts a session over directories, on behalf of the call that holds the lock. Without
directories there is nothing to start. -/
def launch (s : Service) (dirs : List Path) (grace : UInt64) (next : AfterStart) : Service :=
  if dirs = [] then
    match next with
    | .restored e =>
      (s.note .controller [.restoreFailed (.config .noDirectories)]).answer (.error e)
    | _ => s.answer (.error (.config .noDirectories))
  else
    let s := (s.setState .starting).note .controller [.starting dirs grace]
    let session : Session := { roots := dirs, grace, task := s.tasks + 1 }
    { s with tasks := s.tasks + 1, sessions := s.sessions ++ [session] }.enter
      (.starting s.sessions.length next)

/-- Goes on after a start that succeeded. -/
def startSucceeded (s : Service) (id : SessionId) (session : Session) (next : AfterStart) :
    Service :=
  let status : Status := ⟨.running, session.roots, some session.grace⟩
  let s := ({ s with slot := some id }.setStatus status).note .controller [.started]
  match next with
  | .answer | .orRestore _ _ => s.answer (.ok ())
  | .restored e => (s.note .controller [.restored]).answer (.error e)

/-- Goes on after a start that failed. -/
def startFailed (s : Service) (error : WatchError) (next : AfterStart) : Service :=
  let s := s.setStopped
  match next with
  | .answer => s.answer (.error error)
  | .orRestore previous grace =>
    (s.note .controller [.restoring error]).launch previous grace (.restored error)
  | .restored e => (s.note .controller [.restoreFailed error]).answer (.error e)

/-- Ends the session that is held. -/
def endSession (s : Service) (id : SessionId) (next : Option Replacement) : Service :=
  let s := ({ s with slot := none }.setState .stopping).note .controller [.stopping]
  (s.modifySession id fun session => { session with cancelled := true }).enter (.joining id next)

/-- Does what a request asks for, once its call holds the lock. -/
def serve (s : Service) (request : Request) : Service :=
  match request, s.slot with
  | .start _ _, some _ => s.answer (.error .alreadyRunning)
  | .start dirs grace, none => s.launch (Path.dedup dirs) grace .answer
  | .stop, none | .update _, none => s.answer (.error .notRunning)
  | .stop, some id => s.endSession id none
  | .update dirs, some id =>
    match s.session? id with
    | none => s.answer (.error .notRunning)
    | some session =>
      let new := Path.dedup dirs
      (s.note .controller [.updating session.roots new]).endSession id
        (some ⟨session.roots, new, session.grace⟩)

/-- Goes on after a session has ended. -/
def sessionEnded (s : Service) (session : Session) (crash : Option String)
    (next : Option Replacement) : Service :=
  let s := s.setStopped
  match crash with
  | some reason => s.answer (.error (crashReport session.task reason))
  | none =>
    let s := s.note .controller [.stopped]
    match next with
    | none => s.answer (.ok ())
    | some r => s.launch r.dirs r.grace (.orRestore r.previous r.grace)

/-- The next step of the call that holds the lock. -/
def stepCall (s : Service) : Option Service :=
  match s.calls with
  | [] => none
  | call :: _ =>
    match call.stage with
    | .waiting request => some (s.serve request)
    | .joining id next =>
      match s.session? id with
      | some session =>
        match session.phase with
        | .finished _ crash => some (s.sessionEnded session crash next)
        | _ => none
      | none => none
    | .starting id next =>
      match s.session? id with
      | some session =>
        match session.ready, session.phase with
        | some (.ok ()), _ => some (s.startSucceeded id session next)
        | some (.error e), _ => some (s.startFailed e next)
        | none, .finished _ (some reason) =>
          some (s.startFailed (crashReport session.task reason) next)
        | none, .finished _ none =>
          some (s.startFailed (.sessionAborted "session ended before reporting readiness") next)
        | none, _ => none
      | none => none

/-! ## Sessions -/

/-- Moves a session to another phase. -/
def enterPhase (s : Service) (id : SessionId) (phase : Phase) : Service :=
  s.modifySession id fun session => { session with phase }

/-- Reports to the call that started a session. -/
def report (s : Service) (id : SessionId) (ready : Except WatchError Unit) : Service :=
  s.modifySession id fun session => { session with ready := some ready }

/-- Connects the engine of a session. -/
def connect (s : Service) (id : SessionId) (session : Session) : Service :=
  let s := s.contact .connected
  if s.backend.crashing then
    { s with backend := { s.backend with crashing := false } }.enterPhase id
      (.finished none (some "connect"))
  else if 0 < s.backend.failing then
    let s := { s with backend := { s.backend with failing := s.backend.failing - 1 } }
    (s.report id (.error (.engine ⟨.other "engine down", []⟩))).enterPhase id (.finished none none)
  else
    let engine : Engine := { rules := s.backend.rules }
    { s with sink := some id }.enterPhase id
      (.registering (.new { engine } session.roots session.grace))

/-- Subscribes the roots of a session, and reports how that went. A session that nobody waits for
any more is over. -/
def register (s : Service) (id : SessionId) (session : Session) (c : Coalescer) : Service :=
  let registered := c.registerRoots s.disk
  let engine := registered.coalescer.registrar.engine
  let s := { s with tasks := s.tasks + 1 }.note (.session session.roots) registered.notices
  let failed (e : WatchError) : Service :=
    ((s.contact .released).report id (.error e)).enterPhase id (.finished (some engine) none)
  match engine.crash, registered.result with
  | some reason, _ => failed (crashReport s.tasks reason)
  | none, .error e => failed e
  | none, .ok () =>
    if session.abandoned then (s.contact .released).enterPhase id (.finished (some engine) none)
    else
      ((s.report id (.ok ())).enterPhase id (.watching registered.coalescer)).note
        (.session session.roots) [.watching session.roots session.grace]

/-- How many tasks a turn of the loop ran: the bumps of a flush are one. -/
def tasksOf : Action → Nat
  | .received _ => 0
  | .flushed bumps | .left (some bumps) => bumps.tasks
  | .left none => 0

/-- Takes over what a turn of the loop did. -/
def turned (s : Service) (id : SessionId) (session : Session) (t : Turn) : Service :=
  let s := { s with disk := t.disk, tasks := s.tasks + tasksOf t.action }.note
    (.session session.roots) t.notices
  let engine := t.loop.coalescer.registrar.engine
  match engine.crash, t.action with
  | some reason, _ => (s.contact .released).enterPhase id (.finished (some engine) (some reason))
  | none, .left _ =>
    ((s.note (.session session.roots) [.watchEnded]).contact .released).enterPhase id
      (.finished (some engine) none)
  | none, _ =>
    s.modifySession id fun session =>
      { session with phase := .watching t.loop.coalescer, inbox := t.loop.inbox }

/-- The next step of a session. -/
def stepSession (s : Service) (id : SessionId) : Option Service :=
  match s.session? id with
  | none => none
  | some session =>
    match session.phase with
    | .connecting => some (s.connect id session)
    | .registering c => some (s.register id session c)
    | .watching c =>
      let l : Loop := ⟨c, session.inbox, session.closed, session.cancelled⟩
      (l.turn s.hazard s.disk s.now).map (s.turned id session)
    | .finished _ _ => none

/-! ## Running -/

/-- The next step of anybody, the call that holds the lock before the sessions. -/
def step (s : Service) : Option Service :=
  s.stepCall <|> (List.range s.sessions.length).findSome? s.stepSession

/-- Steps for as long as a condition holds and somebody has a step to make, at most `fuel` of
them. -/
def runWhile (condition : Service → Bool) : Nat → Service → Service
  | 0, s => s
  | fuel + 1, s =>
    if condition s then
      match s.step with
      | some s => runWhile condition fuel s
      | none => s
    else s

/-- A bound on the steps that can be made without anybody from outside: a few for each call, each
session and each message. -/
def fuel (s : Service) : Nat :=
  let messages := s.sessions.foldl (fun n session => n + session.inbox.length) 0
  16 * (s.calls.length + s.sessions.length + 1) + messages

/-- Lets everybody run until all of them wait. -/
def settle (s : Service) : Service :=
  runWhile (fun _ => true) s.fuel s

/-- Lets everybody run until a call is answered. -/
def runUntilAnswered (s : Service) (call : Nat) : Service :=
  runWhile (fun s => (s.answers.lookup call).isNone) s.fuel s

end Service

end TreeWatch
