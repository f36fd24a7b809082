import TreeWatch.Controller.Step
import TreeWatch.Config.Validation
import TreeWatch.Disk.Edit

/-!
# Operations

What the outside does to a controller and to the engine behind it: calls are begun or given up,
events are delivered, the channel is closed, time passes, the disk changes, the controller is let
go. Each operation only sets things up; the steps that follow do the work.
-/

namespace TreeWatch

namespace Service

/-! ## Calls -/

/-- A number no call has yet. -/
def freshCall (s : Service) : Nat :=
  let used := s.calls.map Call.id ++ s.answers.map Prod.fst
  used.foldl (fun free id => max free (id + 1)) 0

/-- Puts a request in line for the lock. -/
def enqueue (s : Service) (request : Request) : Service × Nat :=
  let id := s.freshCall
  ({ s with calls := s.calls ++ [⟨id, .waiting request⟩] }, id)

/-- Begins to start a session. -/
def beginStart (s : Service) (dirs : List Path) (grace : UInt64) : Service × Nat :=
  s.enqueue (.start dirs grace)

/-- Begins to stop the session. -/
def beginStop (s : Service) : Service × Nat :=
  s.enqueue .stop

/-- Begins to exchange the directories. The new ones are checked before the call gets in line; a
list that does not pass is answered at once. -/
def beginUpdate (s : Service) (dirs : List Path) : Service × Nat :=
  match validateDirs s.disk dirs with
  | .error e =>
    let id := s.freshCall
    ({ s with answers := (id, .error (.config e)) :: s.answers }, id)
  | .ok () => s.enqueue (.update dirs)

/-- The answer to a call. -/
def answerTo? (s : Service) (call : Nat) : Option (Except WatchError Unit) :=
  s.answers.lookup call

/-- Lets the call that holds the lock run until it waits. -/
def runCalls : Nat → Service → Service
  | 0, s => s
  | fuel + 1, s =>
    match s.stepCall with
    | some s => runCalls fuel s
    | none => s

/-- Gives up a call. The session it was waiting for is left to itself. -/
def abandon (s : Service) (id : Nat) : Service :=
  let mark (s : Service) (call : Call) : Service :=
    match call.stage with
    | .starting id _ => s.modifySession id fun session => { session with abandoned := true }
    | _ => s
  let given := s.calls.filter (·.id = id)
  given.foldl mark { s with calls := s.calls.filter (·.id ≠ id) }

/-! ## The engine -/

/-- What became of something put into the engine's channel. -/
inductive Delivery where
  | delivered
  /-- Nobody listens any more. -/
  | closed
  /-- There is no engine. -/
  | noEngine
  deriving DecidableEq, Repr

/-- Puts a message into the channel of the engine connected last. -/
def deliver (s : Service) (message : Message) : Service × Delivery :=
  match s.sink with
  | none => (s, .noEngine)
  | some id =>
    match s.session? id with
    | some session =>
      if session.isLive then
        (s.modifySession id fun session => { session with inbox := session.inbox ++ [message] },
          .delivered)
      else (s, .closed)
    | none => (s, .closed)

/-- Closes the channel of the engine connected last. -/
def closeChannel (s : Service) : Service × Bool :=
  match s.sink with
  | none => (s, false)
  | some id =>
    ({ s with sink := none }.modifySession id fun session => { session with closed := true }, true)

/-- Has engines take requests by other rules, those connected as well. -/
def withRules (s : Service) (rules : Rules) : Service :=
  let change (session : Session) : Session :=
    match session.phase with
    | .registering c =>
      { session with phase := .registering { c with registrar := c.registrar.withRules rules } }
    | .watching c =>
      { session with phase := .watching { c with registrar := c.registrar.withRules rules } }
    | _ => session
  { s with backend := { s.backend with rules }, sessions := s.sessions.map change }

/-! ## The disk -/

/-- The path of a place from the root directory on. -/
def absolutePath (place : Place) : ByteString :=
  .ofBytes (0x2F :: Pieces.join 0x2F (place.map ByteString.bytes))

/-- The events of the differences between two disks, for the places that `seen` picks. -/
def eventsBetween (before after : Disk) (seen : Place → Bool) : List Event :=
  let gone := before.entries.filterMap fun (place, _) =>
    if seen place && (after.get? place).isNone then some ⟨.remove, [absolutePath place]⟩ else none
  let come := after.entries.filterMap fun (place, entry) =>
    if seen place then
      match before.get? place with
      | none => some ⟨.create, [absolutePath place]⟩
      | some old => if old = entry then none else some ⟨.contents, [absolutePath place]⟩
    else none
  gone ++ come

/-- Whether an engine is told of what happens at a place: it holds the place or the directory
above it. Relative paths start from the home directory. -/
def sees (e : Engine) (home place : Place) : Bool :=
  let base : Path := ⟨(absolutePath home).display⟩
  let holds (place : Place) : Bool :=
    match absolutePath place with
    | .text s => e.held.any fun path => (base.join ⟨path⟩).SameAs ⟨s⟩
    | _ => false
  holds place || holds place.dropLast

/-- Has the engines that report changes by themselves report the differences between two disks. A
channel that is closed takes nothing more. -/
def reportChanges (s : Service) (before : Disk) : Service :=
  if s.backend.reporting then
    let tell (session : Session) : Session :=
      match session.phase, session.closed with
      | .watching c, false =>
        let events := eventsBetween before s.disk (sees c.registrar.engine before.home)
        { session with inbox := session.inbox ++ events.map .event }
      | _, _ => session
    { s with sessions := s.sessions.map tell }
  else s

/-- The directory whose changes are watched for a file. -/
def directoryOf (path : Path) : Path :=
  match path.parent? with
  | some ⟨""⟩ | none => ⟨"."⟩
  | some parent => parent

/-- The place a path names, whether something is there or not. -/
def placeOf? (d : Disk) (path : ByteString) : Option Place :=
  match d.locate .entry path with
  | .ok (.entry place) => some place
  | .ok (.vacant dir name) => some (dir ++ [name])
  | .error _ => none

/-- Whether an edit is one of the file under a path, as seen from the directory the file is in. -/
def touches (d : Disk) (path : Path) (edit : Edit) : Bool :=
  match d.find .target (directoryOf path).native, path.fileName? with
  | .ok dir, some name =>
    let names (p : ByteString) : Bool := placeOf? d p = some (dir ++ [.text name])
    match edit with
    | .dir p | .file p _ | .link p _ | .socket p | .remove p => names p
    | .rename p q => names p || names q
  | _, _ => false

/-- Has the reloader look at its file again, if that was touched. -/
def touchReloader (s : Service) (touched : Path → Bool) : Service :=
  match s.reloader with
  | some r => if touched r.path then { s with reloader := some { r with pending := true } } else s
  | none => s

/-- Changes the disk; engines and the reloader notice what concerns them. -/
def edit (s : Service) (e : Edit) : Service :=
  let before := s.disk
  let s := { s with disk := before.edit e }.reportChanges before
  s.touchReloader fun path => touches before path e || touches s.disk path e

/-- Takes over the disk as others have left it; engines and the reloader notice what concerns
them. -/
def observe (s : Service) (disk : Disk) : Service :=
  let before := s.disk
  let s := { s with disk }.reportChanges before
  let seen (d : Disk) (path : Path) : Option Entry := (d.stat path.native).toOption
  s.touchReloader fun path => seen before path ≠ seen disk path

/-! ## Time -/

/-- The earliest deadline after now and up to a moment. -/
def nextDeadline? (s : Service) (limit : Nat) : Option Nat :=
  let deadlines := s.sessions.filterMap fun session =>
    match session.phase with
    | .watching c => c.deadline
    | _ => none
  (deadlines.filter fun t => s.now < t ∧ t ≤ limit).min?

/-- Lets time pass up to a moment, and everybody run whenever a deadline is reached. -/
def passTime (limit : Nat) : Nat → Service → Service
  | 0, s => { s with now := limit }.settle
  | fuel + 1, s =>
    match s.nextDeadline? limit with
    | none => { s with now := limit }.settle
    | some t => passTime limit fuel { s with now := t }.settle

/-- Lets a span of time pass. Every deadline is reached once, and no flush sets a new one. -/
def sleep (s : Service) (ms : Nat) : Service :=
  passTime (s.now + ms) (s.sessions.length + 1) s

/-! ## Letting go -/

/-- Once nobody can make calls any more, the session that is held is told to stop. -/
def dropIfGone (s : Service) : Service :=
  if s.isGone then
    match s.slot with
    | some id =>
      { s with slot := none }.modifySession id fun session => { session with cancelled := true }
    | none => s
  else s

/-- Lets go of the controller. -/
def release (s : Service) : Service :=
  { s with held := false }.dropIfGone

end Service

end TreeWatch
