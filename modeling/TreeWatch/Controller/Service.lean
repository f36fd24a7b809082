import TreeWatch.Coalescer.Loop
import TreeWatch.Controller.Status

/-!
# Sessions and calls

A controller starts, stops and exchanges sessions on behalf of its callers. Several things go on
at once: the calls, of which one at a time holds the controller's lock, and the sessions, each a
task of its own. This module holds their states; what each of them does next is a step
(`Controller.Step`), and any interleaving of steps is a run.

A session tells the call that started it once, whether it became ready (`Session.ready`). A call
that waits for a session to end waits for the task, so after it no trace of the session goes on.
-/

namespace TreeWatch

/-- How far a session has come. -/
inductive Phase where
  /-- The engine is about to be connected. -/
  | connecting
  /-- The engine is connected, the roots are about to be subscribed. -/
  | registering (coalescer : Coalescer)
  /-- The event loop is running. -/
  | watching (coalescer : Coalescer)
  /-- The task is over. It leaves behind the engine, if it had one, and what it crashed over. -/
  | finished (engine : Option Engine) (crash : Option String)

/-- A session: the task that watches a list of roots. -/
structure Session where
  roots : List Path
  grace : UInt64
  /-- The number of the task among all tasks ever run. -/
  task : Nat
  phase : Phase := .connecting
  inbox : List Message := []
  closed : Bool := false
  cancelled : Bool := false
  /-- What the session reported to the call that started it. -/
  ready : Option (Except WatchError Unit) := none
  /-- That call was given up. -/
  abandoned : Bool := false

/-- The engine of a session, connected or not any more. -/
def Session.engine? (s : Session) : Option Engine :=
  match s.phase with
  | .connecting => none
  | .registering c | .watching c => some c.registrar.engine
  | .finished engine _ => engine

/-- Whether a session is watching, so that what is delivered to it is received some time. -/
def Session.isLive (s : Session) : Bool :=
  match s.phase with
  | .finished _ _ => false
  | _ => true

/-- What a task that crashed is reported with. -/
def crashReport (task : Nat) (reason : String) : WatchError :=
  .sessionAborted ("task " ++ toString task ++ " panicked with message " ++ Quoted.text reason)

/-- A session by its number, in the order of their starts. -/
abbrev SessionId : Type :=
  Nat

/-- What a caller asks for. The directories of an update have been checked. -/
inductive Request where
  | start (dirs : List Path) (grace : UInt64)
  | stop
  | update (dirs : List Path)
  deriving DecidableEq

/-- What to do with the outcome of a start. -/
inductive AfterStart where
  /-- It is the answer. -/
  | answer
  /-- A failure is answered after the previous directories were started again. -/
  | orRestore (previous : List Path) (grace : UInt64)
  /-- The previous directories were started again; the answer is the error before. -/
  | restored (error : WatchError)

/-- What to start once a session has ended: new directories in the stead of the previous ones. -/
structure Replacement where
  previous : List Path
  dirs : List Path
  grace : UInt64

/-- Where a call stands. -/
inductive Stage where
  /-- It waits for the lock. -/
  | waiting (request : Request)
  /-- It waits for a session to end, to start another one then or to be answered. -/
  | joining (session : SessionId) (next : Option Replacement)
  /-- It waits for a session to become ready. -/
  | starting (session : SessionId) (next : AfterStart)

/-- A call in progress. -/
structure Call where
  id : Nat
  stage : Stage

/-- What the engine side saw of a session, and the status of the controller then, if there still
was one. -/
inductive Contact where
  | connected
  | released
  deriving DecidableEq, Repr

/-- How engines are connected: the rules they take requests by, how many connections will fail,
whether the next one crashes, and whether engines report changes of the disk by themselves. -/
structure Backend where
  rules : Rules := {}
  failing : Nat := 0
  crashing : Bool := false
  reporting : Bool := false

/-- Who logs a notice: the program, the controller or a session. -/
inductive Scope where
  | program
  | controller
  | session (roots : List Path)
  deriving DecidableEq

/-- A line of the log. -/
structure LogLine where
  scope : Scope
  notice : Notice
  deriving DecidableEq

/-- The watch of a configuration file, and whether a change of the file was seen and not applied
yet. -/
structure Reloader where
  path : Path
  pending : Bool := false

/-- A controller with its sessions and all they act on. -/
structure Service where
  disk : Disk
  now : Nat := 0
  hazard : Hazards := .none
  backend : Backend := {}
  /-- How many tasks have been run. -/
  tasks : Nat := 0
  status : Status := {}
  /-- The statuses shown before, latest first. -/
  shown : List Status := []
  /-- The session that is held. -/
  slot : Option SessionId := none
  /-- All sessions, in the order of their starts. -/
  sessions : List Session := []
  /-- The calls in progress, in the order in which they asked for the lock. The first one holds
  it. -/
  calls : List Call := []
  /-- The answers given, latest first. -/
  answers : List (Nat × Except WatchError Unit) := []
  /-- The session whose engine was connected last, unless its channel was closed. -/
  sink : Option SessionId := none
  /-- Somebody other than a reloader can still make calls. -/
  held : Bool := true
  reloader : Option Reloader := none
  /-- Connections made and given up, latest first. -/
  contacts : List (Contact × Option Status) := []
  /-- The log, latest line first. -/
  log : List LogLine := []

namespace Service

/-- Adds notices to the log. -/
def note (s : Service) (scope : Scope) (notices : List Notice) : Service :=
  { s with log := (notices.map (⟨scope, ·⟩)).reverse ++ s.log }

/-- The session with a number. -/
def session? (s : Service) (id : SessionId) : Option Session :=
  s.sessions[id]?

/-- Changes a session. -/
def modifySession (s : Service) (id : SessionId) (f : Session → Session) : Service :=
  { s with sessions := s.sessions.modify id f }

/-- Whether the controller is gone: nobody can make calls any more. -/
def isGone (s : Service) : Bool :=
  !s.held && s.reloader.isNone

/-- Notes what an engine saw, with the status at that moment. -/
def contact (s : Service) (c : Contact) : Service :=
  { s with contacts := (c, if s.isGone then none else some s.status) :: s.contacts }

/-- Shows another status. -/
def setStatus (s : Service) (status : Status) : Service :=
  { s with status, shown := s.status :: s.shown }

/-- Sets the state without touching the rest of the status. -/
def setState (s : Service) (state : Lifecycle) : Service :=
  s.setStatus { s.status with state }

/-- Sets the status of a controller without session. -/
def setStopped (s : Service) : Service :=
  s.setStatus {}

/-- Answers the call that holds the lock, which passes on to the next one. -/
def answer (s : Service) (result : Except WatchError Unit) : Service :=
  match s.calls with
  | [] => s
  | call :: rest => { s with calls := rest, answers := (call.id, result) :: s.answers }

/-- Moves the call that holds the lock to another stage. -/
def enter (s : Service) (stage : Stage) : Service :=
  match s.calls with
  | [] => s
  | call :: rest => { s with calls := { call with stage } :: rest }

end Service

end TreeWatch
