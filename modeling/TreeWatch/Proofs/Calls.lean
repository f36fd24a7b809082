import TreeWatch.Controller.Step

/-!
# What a step of a call does

The call that holds the lock goes on from one point where it waits to the next. There are six
things it can do on the way (`CallStep`), each with all that it changes: it refuses a request,
starts a session or ends one on behalf of a request, takes over a session that became ready, is
answered because the session it waited for is over, or starts another session then.

Main results:
  * `stepCall_cases`: every step of a call is one of the six
-/

namespace TreeWatch

/-- What a start fails with that waited for a session to become ready: what the session reported,
or that it ended without a report. -/
def Session.startError? (session : Session) : Option WatchError :=
  match session.ready, session.phase with
  | some (.error e), _ => some e
  | none, .finished _ (some reason) => some (crashReport session.task reason)
  | none, .finished _ none => some (.sessionAborted "session ended before reporting readiness")
  | _, _ => none

/-- The answer of a call whose session became ready. -/
def AfterStart.result : AfterStart → Except WatchError Unit
  | .answer | .orRestore _ _ => .ok ()
  | .restored e => .error e

/-- The answer of a call that has no directories to start a session over. -/
def AfterStart.vacant : AfterStart → Except WatchError Unit
  | .answer | .orRestore _ _ => .error (.config .noDirectories)
  | .restored e => .error e

/-- The session a call waits for, to become ready or to end. -/
def Stage.awaited? : Stage → Option SessionId
  | .waiting _ => none
  | .joining id _ | .starting id _ => some id

namespace Service

/-- Why a request is refused as soon as its call holds the lock. -/
inductive Refused (s : Service) : Request → WatchError → Prop where
  | busy {id : SessionId} (dirs : List Path) (grace : UInt64) (hHeld : s.slot = some id) :
      Refused s (.start dirs grace) .alreadyRunning
  | empty (dirs : List Path) (grace : UInt64) (hFree : s.slot = none)
      (hDirs : Path.dedup dirs = []) : Refused s (.start dirs grace) (.config .noDirectories)
  | nothingToStop (hFree : s.slot = none) : Refused s .stop .notRunning
  | nothingToUpdate (dirs : List Path) (hFree : s.slot = none) :
      Refused s (.update dirs) .notRunning
  | unknown {id : SessionId} (dirs : List Path) (hHeld : s.slot = some id)
      (hNone : s.session? id = none) : Refused s (.update dirs) .notRunning

/-- A request that ends the session with a number, and what is to be started in its stead. -/
inductive Ends (s : Service) (id : SessionId) : Request → Option Replacement → Prop where
  | stop : Ends s id .stop none
  | update (dirs : List Path) (session : Session) (hSession : s.session? id = some session) :
      Ends s id (.update dirs) (some ⟨session.roots, Path.dedup dirs, session.grace⟩)

/-- What a call answers that waited for a session, when it is over and no other one is started. -/
inductive Verdict (session : Session) : Stage → Except WatchError Unit → Prop where
  | stopped (id : SessionId) (engine : Option Engine)
      (hPhase : session.phase = .finished engine none) :
      Verdict session (.joining id none) (.ok ())
  | aborted (id : SessionId) (engine : Option Engine) (reason : String)
      (next : Option Replacement) (hPhase : session.phase = .finished engine (some reason)) :
      Verdict session (.joining id next) (.error (crashReport session.task reason))
  | irreplaceable (id : SessionId) (engine : Option Engine) (r : Replacement)
      (hPhase : session.phase = .finished engine none) (hDirs : r.dirs = []) :
      Verdict session (.joining id (some r)) (.error (.config .noDirectories))
  | unstarted (id : SessionId) (e : WatchError) (hError : session.startError? = some e) :
      Verdict session (.starting id .answer) (.error e)
  | unrestored (id : SessionId) (e first : WatchError) (hError : session.startError? = some e) :
      Verdict session (.starting id (.restored first)) (.error first)
  | unrestorable (id : SessionId) (e : WatchError) (previous : List Path) (grace : UInt64)
      (hError : session.startError? = some e) (hDirs : previous = []) :
      Verdict session (.starting id (.orRestore previous grace)) (.error e)

/-- What is started when a session that a call waited for is over, and what to do with that. -/
inductive Another (session : Session) : Stage → List Path → UInt64 → AfterStart → Prop where
  | replacing (id : SessionId) (engine : Option Engine) (r : Replacement)
      (hPhase : session.phase = .finished engine none) :
      Another session (.joining id (some r)) r.dirs r.grace (.orRestore r.previous r.grace)
  | restoring (id : SessionId) (e : WatchError) (previous : List Path) (grace : UInt64)
      (hError : session.startError? = some e) :
      Another session (.starting id (.orRestore previous grace)) previous grace (.restored e)

/-- The service after the first call was answered, up to the log. -/
def answered (s : Service) (call : Call) (rest : List Call) (result : Except WatchError Unit)
    (log : List LogLine) : Service :=
  { s with calls := rest, answers := (call.id, result) :: s.answers, log }

/-- The session that the next task is for, if it is to watch directories. -/
def spawn (s : Service) (dirs : List Path) (grace : UInt64) : Session :=
  { roots := dirs, grace, task := s.tasks + 1 }

/-- The service after the first call has started a session, up to the log. -/
def launched (s : Service) (call : Call) (rest : List Call) (dirs : List Path) (grace : UInt64)
    (next : AfterStart) (log : List LogLine) : Service :=
  { s.setState .starting with
    tasks := s.tasks + 1
    sessions := s.sessions ++ [s.spawn dirs grace]
    calls := ⟨call.id, .starting s.sessions.length next⟩ :: rest
    log }

/-- What a step of the first call does. -/
inductive CallStep (s : Service) (call : Call) (rest : List Call) (after : Service) : Prop where
  | refused (request : Request) (e : WatchError) (log : List LogLine)
      (hStage : call.stage = .waiting request) (hWhy : s.Refused request e)
      (hAfter : after = s.answered call rest (.error e) log)
  | launched (dirs : List Path) (grace : UInt64) (log : List LogLine)
      (hStage : call.stage = .waiting (.start dirs grace)) (hFree : s.slot = none)
      (hDirs : Path.dedup dirs ≠ [])
      (hAfter : after = s.launched call rest (Path.dedup dirs) grace .answer log)
  | ending (request : Request) (id : SessionId) (next : Option Replacement) (log : List LogLine)
      (hStage : call.stage = .waiting request) (hHeld : s.slot = some id)
      (hEnds : s.Ends id request next)
      (hAfter : after =
        { s.setState .stopping with
          slot := none
          sessions := s.sessions.modify id fun session => { session with cancelled := true }
          calls := ⟨call.id, .joining id next⟩ :: rest
          log })
  | started (id : SessionId) (next : AfterStart) (session : Session) (log : List LogLine)
      (hStage : call.stage = .starting id next) (hSession : s.session? id = some session)
      (hReady : session.ready = some (.ok ()))
      (hAfter : after =
        { s.setStatus ⟨.running, session.roots, some session.grace⟩ with
          slot := some id }.answered call rest next.result log)
  | ended (id : SessionId) (session : Session) (result : Except WatchError Unit)
      (log : List LogLine) (hAwaited : call.stage.awaited? = some id)
      (hSession : s.session? id = some session) (hVerdict : Verdict session call.stage result)
      (hAfter : after = s.setStopped.answered call rest result log)
  | another (id : SessionId) (session : Session) (dirs : List Path) (grace : UInt64)
      (next : AfterStart) (log : List LogLine) (hAwaited : call.stage.awaited? = some id)
      (hSession : s.session? id = some session) (hDirs : dirs ≠ [])
      (hAnother : Another session call.stage dirs grace next)
      (hAfter : after = s.setStopped.launched call rest dirs grace next log)

variable {s after : Service} {call : Call} {rest : List Call}

/-! ## Sessions that are over -/

theorem over_of_startError {session : Session} {e : WatchError}
    (h : session.startError? = some e) :
    session.isLive = false ∨ ∃ e, session.ready = some (.error e) := by
  unfold Session.startError? at h
  split at h
  · next e' hReady => exact Or.inr ⟨e', hReady⟩
  · next engine reason hReady hPhase => exact Or.inl (by simp [Session.isLive, hPhase])
  · next engine hReady hPhase => exact Or.inl (by simp [Session.isLive, hPhase])
  · cases h

/-- Whoever is answered because of a session has found its task over, or an error reported. -/
theorem Verdict.ended {session : Session} {stage : Stage} {result : Except WatchError Unit}
    (h : Verdict session stage result) :
    session.isLive = false ∨ ∃ e, session.ready = some (.error e) := by
  cases h with
  | stopped id engine hPhase | aborted id engine reason next hPhase
  | irreplaceable id engine r hPhase hDirs => exact Or.inl (by simp [Session.isLive, hPhase])
  | unstarted id e hError | unrestored id e first hError
  | unrestorable id e previous grace hError hDirs => exact over_of_startError hError

theorem Another.ended {session : Session} {stage : Stage} {dirs : List Path} {grace : UInt64}
    {next : AfterStart} (h : Another session stage dirs grace next) :
    session.isLive = false ∨ ∃ e, session.ready = some (.error e) := by
  cases h with
  | replacing id engine r hPhase => exact Or.inl (by simp [Session.isLive, hPhase])
  | restoring id e previous grace hError => exact over_of_startError hError

/-! ## What operations do to the line of calls -/

theorem answer_eq (hCalls : s.calls = call :: rest) (result : Except WatchError Unit) :
    s.answer result = s.answered call rest result s.log := by
  unfold answer
  rw [hCalls]
  rfl

theorem launch_empty (hCalls : s.calls = call :: rest) {dirs : List Path} (hDirs : dirs = [])
    (grace : UInt64) (next : AfterStart) :
    ∃ log, s.launch dirs grace next = s.answered call rest next.vacant log := by
  unfold launch
  rw [if_pos hDirs]
  cases next with
  | answer | orRestore previous grace => exact ⟨_, answer_eq hCalls _⟩
  | restored e => exact ⟨_, answer_eq (s := s.note .controller _) hCalls _⟩

theorem launch_eq (hCalls : s.calls = call :: rest) {dirs : List Path} (hDirs : dirs ≠ [])
    (grace : UInt64) (next : AfterStart) :
    ∃ log, s.launch dirs grace next = s.launched call rest dirs grace next log := by
  unfold launch
  rw [if_neg hDirs]
  refine ⟨((s.setState .starting).note .controller [.starting dirs grace]).log, ?_⟩
  simp only [enter, launched, spawn, note, setState, setStatus, hCalls]

theorem endSession_eq (hCalls : s.calls = call :: rest) (id : SessionId)
    (next : Option Replacement) :
    ∃ log, s.endSession id next =
      { s.setState .stopping with
        slot := none
        sessions := s.sessions.modify id fun session => { session with cancelled := true }
        calls := ⟨call.id, .joining id next⟩ :: rest
        log } := by
  refine ⟨(s.note .controller [.stopping]).log, ?_⟩
  simp only [endSession, enter, modifySession, note, setState, setStatus, hCalls]

/-! ## The six things -/

theorem serve_cases {request : Request} (hCalls : s.calls = call :: rest)
    (hStage : call.stage = .waiting request) : CallStep s call rest (s.serve request) := by
  have hRefuse {e : WatchError} (hWhy : s.Refused request e) :
      CallStep s call rest (s.answer (.error e)) :=
    .refused request e _ hStage hWhy (answer_eq hCalls _)
  unfold serve
  cases hSlot : s.slot with
  | none =>
    cases request with
    | start dirs grace =>
      by_cases hDirs : Path.dedup dirs = []
      · obtain ⟨log, hEq⟩ := launch_empty hCalls hDirs grace .answer
        exact .refused _ _ log hStage (.empty dirs grace hSlot hDirs) hEq
      · obtain ⟨log, hEq⟩ := launch_eq hCalls hDirs grace .answer
        exact .launched dirs grace log hStage hSlot hDirs hEq
    | stop => exact hRefuse (.nothingToStop hSlot)
    | update dirs => exact hRefuse (.nothingToUpdate dirs hSlot)
  | some id =>
    cases request with
    | start dirs grace => exact hRefuse (.busy dirs grace hSlot)
    | stop =>
      obtain ⟨log, hEq⟩ := endSession_eq hCalls id none
      exact .ending _ id none log hStage hSlot .stop hEq
    | update dirs =>
      cases hSession : s.session? id with
      | none =>
        simp only [hSession]
        exact hRefuse (.unknown dirs hSlot hSession)
      | some session =>
        simp only [hSession]
        let noted := s.note .controller [.updating session.roots (Path.dedup dirs)]
        obtain ⟨log, hEq⟩ := endSession_eq (s := noted) hCalls id
          (some ⟨session.roots, Path.dedup dirs, session.grace⟩)
        exact .ending _ id _ log hStage hSlot (.update dirs session hSession) hEq

/-- A call whose session is over is answered, or starts another one if there are directories. -/
theorem launch_over {id : SessionId} {session : Session} {dirs : List Path} {grace : UInt64}
    {next : AfterStart} (hCalls : s.calls = call :: rest)
    (hAwaited : call.stage.awaited? = some id) (hSession : s.session? id = some session)
    (hAnother : Another session call.stage dirs grace next)
    (hVacant : dirs = [] → Verdict session call.stage next.vacant) (notices : List Notice) :
    CallStep s call rest ((s.setStopped.note .controller notices).launch dirs grace next) := by
  have hNoted : (s.setStopped.note .controller notices).calls = call :: rest := hCalls
  by_cases hDirs : dirs = []
  · obtain ⟨log, hEq⟩ := launch_empty hNoted hDirs grace next
    exact .ended id session _ log hAwaited hSession (hVacant hDirs) hEq
  · obtain ⟨log, hEq⟩ := launch_eq hNoted hDirs grace next
    exact .another id session dirs grace next log hAwaited hSession hDirs hAnother hEq

theorem sessionEnded_cases {id : SessionId} {session : Session} {engine : Option Engine}
    {crash : Option String} {next : Option Replacement} (hCalls : s.calls = call :: rest)
    (hStage : call.stage = .joining id next) (hSession : s.session? id = some session)
    (hPhase : session.phase = .finished engine crash) :
    CallStep s call rest (s.sessionEnded session crash next) := by
  have hAwaited : call.stage.awaited? = some id := by rw [hStage]; rfl
  cases crash with
  | some reason =>
    exact .ended id session _ _ hAwaited hSession (hStage ▸ .aborted id engine reason next hPhase)
      (answer_eq (s := s.setStopped) hCalls _)
  | none =>
    cases next with
    | none =>
      exact .ended id session _ _ hAwaited hSession (hStage ▸ .stopped id engine hPhase)
        (answer_eq (s := s.setStopped.note .controller [.stopped]) hCalls _)
    | some r =>
      exact launch_over hCalls hAwaited hSession (hStage ▸ .replacing id engine r hPhase)
        (fun hDirs => hStage ▸ .irreplaceable id engine r hPhase hDirs) _

theorem startFailed_cases {id : SessionId} {session : Session} {e : WatchError}
    {next : AfterStart} (hCalls : s.calls = call :: rest)
    (hStage : call.stage = .starting id next) (hSession : s.session? id = some session)
    (hError : session.startError? = some e) :
    CallStep s call rest (s.startFailed e next) := by
  have hAwaited : call.stage.awaited? = some id := by rw [hStage]; rfl
  cases next with
  | answer =>
    exact .ended id session _ _ hAwaited hSession (hStage ▸ .unstarted id e hError)
      (answer_eq (s := s.setStopped) hCalls _)
  | orRestore previous grace =>
    exact launch_over hCalls hAwaited hSession (hStage ▸ .restoring id e previous grace hError)
      (fun hDirs => hStage ▸ .unrestorable id e previous grace hError hDirs) _
  | restored first =>
    exact .ended id session _ _ hAwaited hSession (hStage ▸ .unrestored id e first hError)
      (answer_eq (s := s.setStopped.note .controller [.restoreFailed e]) hCalls _)

theorem startSucceeded_cases {id : SessionId} {session : Session} {next : AfterStart}
    (hCalls : s.calls = call :: rest) (hStage : call.stage = .starting id next)
    (hSession : s.session? id = some session) (hReady : session.ready = some (.ok ())) :
    CallStep s call rest (s.startSucceeded id session next) := by
  let held := ({ s with slot := some id }.setStatus
    ⟨.running, session.roots, some session.grace⟩).note .controller [.started]
  cases next with
  | answer =>
    exact .started id _ session _ hStage hSession hReady (answer_eq (s := held) hCalls _)
  | orRestore previous grace =>
    exact .started id _ session _ hStage hSession hReady (answer_eq (s := held) hCalls _)
  | restored e =>
    exact .started id _ session _ hStage hSession hReady
      (answer_eq (s := held.note .controller [.restored]) hCalls _)

theorem exists_call (h : s.stepCall = some after) : ∃ call rest, s.calls = call :: rest := by
  cases hCalls : s.calls with
  | nil =>
    rw [stepCall, hCalls] at h
    cases h
  | cons call rest => exact ⟨call, rest, rfl⟩

/-- **Every step of a call** is one of the six. -/
theorem stepCall_cases (hCalls : s.calls = call :: rest) (h : s.stepCall = some after) :
    CallStep s call rest after := by
  unfold stepCall at h
  rw [hCalls] at h
  cases hStage : call.stage with
  | waiting request =>
    simp only [hStage, Option.some.injEq] at h
    exact h ▸ serve_cases hCalls hStage
  | joining id next =>
    -- the call goes on only when the session is over
    cases hSession : s.session? id with
    | none => simp [hStage, hSession] at h
    | some session =>
      cases hPhase : session.phase with
      | finished engine crash =>
        simp only [hStage, hSession, hPhase, Option.some.injEq] at h
        exact h ▸ sessionEnded_cases hCalls hStage hSession hPhase
      | connecting | registering c | watching c => simp [hStage, hSession, hPhase] at h
  | starting id next =>
    cases hSession : s.session? id with
    | none => simp [hStage, hSession] at h
    | some session =>
      simp only [hStage, hSession] at h
      -- a report comes first; a session that ended without one has failed, too
      split at h
      · next hReady =>
        exact Option.some.inj h ▸ startSucceeded_cases hCalls hStage hSession hReady
      · next e hReady =>
        refine Option.some.inj h ▸ startFailed_cases hCalls hStage hSession ?_
        rw [Session.startError?, hReady]
      · next engine reason hReady hPhase =>
        refine Option.some.inj h ▸ startFailed_cases hCalls hStage hSession ?_
        rw [Session.startError?, hReady, hPhase]
      · next engine hReady hPhase =>
        refine Option.some.inj h ▸ startFailed_cases hCalls hStage hSession ?_
        rw [Session.startError?, hReady, hPhase]
      · cases h

end Service

end TreeWatch
