import TreeWatch.Proofs.Reachable
import TreeWatch.Proofs.Shutdown

/-!
# Updates

An update exchanges the directories of a session: it has the session that is held flush and end,
starts another one over the new directories, and if that fails starts one over the previous ones
again. There are four ways in which an update can end that runs alone (`UpdateOutcome`), and each of
them says what is held and shown then, what became of the session before, and what the record of the
update is (`UpdateEnds`).

The update goes through four stages (`Trail`). At each of them sessions and the world make any
moves, which leave the stage as it is; a step of the update leads to the next stage or to one of
the ends.

Main results:
  * `Trail.call`: a step of an update leads to the next stage, or to an end
  * `update_outcomes`: an update that runs alone has one of the four outcomes, and no other one
-/

namespace TreeWatch

/-- How an update ends. -/
inductive UpdateOutcome where
  /-- It was refused. -/
  | untouched
  /-- The new directories are watched. -/
  | replaced
  /-- The task of the session before had crashed. -/
  | aborted
  /-- The new directories could not be watched. -/
  | failed
  deriving DecidableEq

/-- The outcome that goes with the length of the record of calls. -/
def UpdateOutcome.ofLength : Nat → UpdateOutcome
  | 0 | 1 => .untouched
  | 2 | 3 => .aborted
  | 4 => .replaced
  | _ => .failed

/-- Whether a task made a step. -/
def Life.isActed : Life → Bool
  | .acted _ => true
  | _ => false

/-- The record without the steps of tasks: what calls did. -/
def ofCalls (lives : List Life) : List Life :=
  lives.filter fun life => !life.isActed

theorem ofCalls_append (lives more : List Life) :
    ofCalls (lives ++ more) = ofCalls lives ++ ofCalls more :=
  List.filter_append ..

namespace Service

/-- A call that runs alone, from its beginning to its answer, with the moves that are made
meanwhile and the record they leave. -/
inductive Completes (s : Service) (request : Request) : List Move → List Life → Service → Prop where
  /-- The call is answered as it begins. -/
  | atOnce (hLine : (s.begin request).calls = s.calls) :
      Completes s request [] [] (s.begin request)
  /-- The call gets in line, and its last step answers it. -/
  | inLine {moves : List Move} {lives : List Life} {last after : Service}
      (run : Steps (s.begin request) moves lives last)
      (hAlone : ∀ move ∈ moves, move.isBegin = false) (hCall : last.stepCall = some after)
      (hDone : after.calls = []) :
      Completes s request (moves ++ [.call]) (lives ++ livesOfCall last after) after

/-- A session over given directories is held, and shown. -/
structure Runs (s : Service) (id : SessionId) (dirs : List Path) (grace : UInt64) : Prop where
  slot : s.slot = some id
  status : s.status = ⟨.running, dirs, some grace⟩
  session : ∃ session, s.session? id = some session ∧ session.roots = dirs ∧
    session.grace = grace ∧ session.ready = some (.ok ())

/-- No session is held, and that is shown. -/
structure Stopped (s : Service) : Prop where
  slot : s.slot = none
  status : s.status = {}

/-- A session was started over given directories. -/
def Tried (s : Service) (id : SessionId) (dirs : List Path) (grace : UInt64)
    (session : Session) : Prop :=
  s.session? id = some session ∧ session.roots = dirs ∧ session.grace = grace

/-- Before an update spawned a session, the one with a number had flushed all that was dirty, from
the beginning of the update on. -/
def FlushedFirst (s : Service) (dirs : List Path) (id : SessionId) (dirty : List Path)
    (moves : List Move) : Prop :=
  ∃ front back lives t, moves = front ++ back ∧ Steps (s.begin (.update dirs)) front lives t ∧
    (∀ fresh, .spawned fresh ∉ lives) ∧
    Flushed dirty ((s.begin (.update dirs)).rounds id front)

/-- The ways in which an update can end that runs alone. -/
inductive UpdateEnds (s : Service) (dirs : List Path) (moves : List Move) (lives : List Life)
    (after : Service) : UpdateOutcome → Prop where
  /-- The directories are no good, or there is no session. Up to the answer all is as it would be
  without the update. -/
  | untouched (e : WatchError) (rest : List Move) (others : List Life) (t : Service)
      (hWhy : (∃ why, validateDirs s.disk dirs = .error why ∧ e = .config why) ∨
        validateDirs s.disk dirs = .ok () ∧ s.slot = none ∧ e = .notRunning)
      (hMoves : moves = rest ∨ moves = rest ++ [.call]) (hRun : Steps s rest others t)
      (hAfter : after = { t with answers := (s.freshCall, .error e) :: t.answers })
      (hRecord : ofCalls lives <+: [.granted s.freshCall (.update dirs)]) :
      UpdateEnds s dirs moves lives after .untouched
  | replaced (id : SessionId) (old : Session) (hHeld : s.slot = some id)
      (hOld : s.session? id = some old)
      (hFlushed : s.FlushedFirst dirs id old.dirty moves)
      (hRuns : after.Runs s.sessions.length (Path.dedup dirs) old.grace)
      (hAnswer : after.answers = (s.freshCall, .ok ()) :: s.answers)
      (hRecord : ofCalls lives = [.granted s.freshCall (.update dirs), .ended id, .joined id,
        .spawned s.sessions.length]) :
      UpdateEnds s dirs moves lives after .replaced
  | aborted (id : SessionId) (old crashed : Session) (engine : Option Engine) (reason : String)
      (hHeld : s.slot = some id) (hOld : s.session? id = some old)
      (hCrashed : after.session? id = some crashed)
      (hPhase : crashed.phase = .finished engine (some reason))
      (hStopped : after.Stopped)
      (hAnswer : after.answers =
        (s.freshCall, .error (crashReport old.task reason)) :: s.answers)
      (hRecord : ofCalls lives = [.granted s.freshCall (.update dirs), .ended id, .joined id]) :
      UpdateEnds s dirs moves lives after .aborted
  /-- The answer is the error of the start that failed, whatever becomes of the other one. -/
  | failed (id : SessionId) (old first : Session) (e : WatchError) (hHeld : s.slot = some id)
      (hOld : s.session? id = some old)
      (hFlushed : s.FlushedFirst dirs id old.dirty moves)
      (hTried : after.Tried s.sessions.length (Path.dedup dirs) old.grace first)
      (hError : first.startError? = some e)
      (hAnswer : after.answers = (s.freshCall, .error e) :: s.answers)
      (hRestored :
        after.Runs (s.sessions.length + 1) old.roots old.grace ∧
          ofCalls lives = [.granted s.freshCall (.update dirs), .ended id, .joined id,
            .spawned s.sessions.length, .joined s.sessions.length,
            .spawned (s.sessions.length + 1)] ∨
        (∃ second e', after.Tried (s.sessions.length + 1) old.roots old.grace second ∧
            second.startError? = some e') ∧ after.Stopped ∧
          ofCalls lives = [.granted s.freshCall (.update dirs), .ended id, .joined id,
            .spawned s.sessions.length, .joined s.sessions.length,
            .spawned (s.sessions.length + 1), .joined (s.sessions.length + 1)]) :
      UpdateEnds s dirs moves lives after .failed

variable {s v after : Service} {dirs : List Path} {moves : List Move}
  {lives more : List Life} {move : Move} {id number : Nat} {old a b : Session}
  {stage : Stage} {outcome : UpdateOutcome}

/-! ## The outcomes exclude each other -/

/-- The record says how an update ended. -/
theorem UpdateEnds.outcome_eq (h : s.UpdateEnds dirs moves lives after outcome) :
    outcome = .ofLength (ofCalls lives).length := by
  cases h with
  | untouched e rest others t hWhy hMoves hRun hAfter hRecord =>
    have hShort : (ofCalls lives).length ≤ 1 := hRecord.length_le
    match hLength : (ofCalls lives).length, hShort with
    | 0, _ | 1, _ => rfl
  | replaced id old hHeld hOld hFlushed hRuns hAnswer hRecord => rw [hRecord]; rfl
  | aborted id old crashed engine reason hHeld hOld hCrashed hPhase hStopped hAnswer hRecord =>
    rw [hRecord]
    rfl
  | failed id old first e hHeld hOld hFlushed hTried hError hAnswer hRestored =>
    rcases hRestored with ⟨-, hRecord⟩ | ⟨-, -, hRecord⟩ <;> rw [hRecord] <;> rfl

/-- However an update ends, its answer is the one given last. -/
theorem UpdateEnds.answered (h : s.UpdateEnds dirs moves lives after outcome) :
    ∃ answer earlier, after.answers = (s.freshCall, answer) :: earlier := by
  cases h with
  | untouched e rest others t hWhy hMoves hRun hAfter hRecord =>
    exact ⟨_, _, congrArg Service.answers hAfter⟩
  | replaced id old hHeld hOld hFlushed hRuns hAnswer hRecord => exact ⟨_, _, hAnswer⟩
  | aborted id old crashed engine reason hHeld hOld hCrashed hPhase hStopped hAnswer hRecord =>
    exact ⟨_, _, hAnswer⟩
  | failed id old first e hHeld hOld hFlushed hTried hError hAnswer hRestored =>
    exact ⟨_, _, hAnswer⟩

/-! ## A call that is alone -/

/-- The only call is at a stage, a session is held or not, so many have been spawned, and calls
have done so much. -/
structure At (s : Service) (stage : Stage) (slot : Option SessionId) (count : Nat)
    (record : List Life) (lives : List Life) (v : Service) : Prop where
  calls : v.calls = [⟨s.freshCall, stage⟩]
  slot : v.slot = slot
  answers : v.answers = s.answers
  count : v.sessions.length = count
  record : ofCalls lives = record

theorem length_of_sameOutcomes (h : SameOutcomes s.sessions after.sessions) :
    after.sessions.length = s.sessions.length := by
  simpa using congrArg List.length h

/-- Sessions and the world leave the line, the slot, the answers and the number of sessions as they
are. -/
theorem kept_by_others (hStep : Step v move more after) (hBegin : move.isBegin = false)
    (hCall : move ≠ .call) :
    after.calls = v.calls ∧ after.slot = v.slot ∧ after.answers = v.answers ∧
      after.sessions.length = v.sessions.length ∧ ofCalls more = [] := by
  cases hStep with
  | begin request => cases hBegin
  | call hCalls => exact absurd rfl hCall
  | session id hTask =>
    obtain ⟨session, b, hSession, -, hApart⟩ := stepSession_cases hTask
    refine ⟨hApart.calls, hApart.slot, hApart.answers, ?_, rfl⟩
    rw [hApart.sessions, List.length_set]
  | outside o =>
    have hUndergone := undergo_undergone v o
    obtain ⟨-, -, hSame⟩ := undergo_effect v o
    exact ⟨hUndergone.calls, hUndergone.slot, hUndergone.answers, length_of_sameOutcomes hSame, rfl⟩

theorem session?_begin (s : Service) (request : Request) (id : SessionId) :
    (s.begin request).session? id = s.session? id := by
  rcases begin_effect s request with ⟨-, hBegun⟩ | ⟨dirs, e, -, -, hBegun⟩ <;> rw [hBegun] <;> rfl

/-- An update whose directories are good gets in line. -/
theorem begin_update (h : validateDirs s.disk dirs = .ok ()) : s.begin (.update dirs) =
    { s with calls := s.calls ++ [⟨s.freshCall, .waiting (.update dirs)⟩] } := by
  show (s.beginUpdate dirs).1 = _
  rw [beginUpdate, h]
  rfl

/-- An update whose directories are no good is answered as it begins. -/
theorem begin_invalid {why : ConfigError} (h : validateDirs s.disk dirs = .error why) :
    s.begin (.update dirs) =
      { s with answers := (s.freshCall, .error (.config why)) :: s.answers } := by
  show (s.beginUpdate dirs).1 = _
  rw [beginUpdate, h]

/-- Sessions and the world leave a call where it is. -/
theorem At.others {slot : Option SessionId} {count : Nat} {record : List Life}
    (h : s.At stage slot count record lives v) (hStep : Step v move more after)
    (hBegin : move.isBegin = false) (hCall : move ≠ .call) :
    s.At stage slot count record (lives ++ more) after := by
  obtain ⟨hCalls, hSlot, hAnswers, hCount, hNone⟩ := kept_by_others hStep hBegin hCall
  refine ⟨hCalls.trans h.calls, hSlot.trans h.slot, hAnswers.trans h.answers,
    hCount.trans h.count, ?_⟩
  rw [ofCalls_append, h.record, hNone, List.append_nil]

/-! ## What a step of the call adds to the record -/

section

variable {line : List Call} {request : Request} (hCount : after.sessions.length = v.sessions.length)
include hCount

theorem livesOfCall_refused (hCalls : v.calls = ⟨number, .waiting request⟩ :: line)
    (hSlot : after.slot = v.slot) : livesOfCall v after = [.granted number request] := by
  simp [livesOfCall, grants, awaited?, hCalls, hSlot, hCount]

theorem livesOfCall_ending (hCalls : v.calls = ⟨number, .waiting request⟩ :: line)
    (hHeld : v.slot = some id) (hSlot : after.slot = none) :
    livesOfCall v after = [.granted number request, .ended id] := by
  simp [livesOfCall, grants, awaited?, hCalls, hHeld, hSlot, hCount]

theorem livesOfCall_started (hAwaited : v.awaited? = some id) (hFree : v.slot = none)
    (hSlot : after.slot = some id) : livesOfCall v after = [] := by
  simp [livesOfCall, grants_of_awaited hAwaited, hAwaited, hFree, hSlot, hCount]

theorem livesOfCall_over (hAwaited : v.awaited? = some id) (hFree : v.slot = none)
    (hSlot : after.slot = none) : livesOfCall v after = [.joined id] := by
  simp [livesOfCall, grants_of_awaited hAwaited, hAwaited, hFree, hSlot, hCount]

end

theorem livesOfCall_another (hAwaited : v.awaited? = some id) (hFree : v.slot = none)
    (hSlot : after.slot = none) (hCount : after.sessions.length = v.sessions.length + 1) :
    livesOfCall v after = [.joined id, .spawned v.sessions.length] := by
  simp [livesOfCall, grants_of_awaited hAwaited, hAwaited, hFree, hSlot, hCount]

/-! ## The steps of an update -/

/-- An update that has obtained the lock ends the session that is held. -/
theorem At.ending {count : Nat}
    (h : s.At (.waiting (.update dirs)) (some id) count [] lives v)
    (hSession : v.session? id = some a) (hCall : v.stepCall = some after) :
    s.At (.joining id (some ⟨a.roots, Path.dedup dirs, a.grace⟩)) none count
      [.granted s.freshCall (.update dirs), .ended id] (lives ++ livesOfCall v after) after := by
  -- of all that a call may do, only what one does that gets the lock is possible at this stage
  cases stepCall_cases h.calls hCall with
  | refused request e log hStage hWhy hAfter =>
    cases hStage
    -- there is a session
    cases hWhy with
    | nothingToUpdate dirs hFree => cases hFree.symm.trans h.slot
    | unknown dirs hHeld hNone =>
      obtain rfl := Option.some.inj (hHeld.symm.trans h.slot)
      cases hNone.symm.trans hSession
  | launched dirs grace log hStage hFree hDirs hAfter => cases hStage
  | ending request other next log hStage hHeld hEnds hAfter =>
    cases hStage
    obtain rfl := Option.some.inj (hHeld.symm.trans h.slot)
    cases hEnds with
    | update dirs session hSame =>
      obtain rfl := Option.some.inj (hSame.symm.trans hSession)
      subst hAfter
      have hCount : (v.sessions.modify other fun session =>
          { session with cancelled := true }).length = v.sessions.length := List.length_modify ..
      refine ⟨rfl, rfl, h.answers, hCount.trans h.count, ?_⟩
      rw [ofCalls_append, h.record, livesOfCall_ending hCount h.calls h.slot rfl]
      rfl
  | started other next session log hStage hThere hReady hAfter => cases hStage
  | ended other session result log hAwaited hThere hVerdict hAfter => cases hAwaited
  | another other session dirs grace next log hAwaited hThere hSome hAnother hAfter =>
    cases hAwaited

/-- The call is answered because the session that it waited for is over. -/
theorem At.ended {count : Nat} {record : List Life} {result : Except WatchError Unit}
    {log : List LogLine} (h : s.At stage none count record lives v)
    (hAwaited : stage.awaited? = some id)
    (hAfter : after = v.setStopped.answered ⟨s.freshCall, stage⟩ [] result log) :
    after.Stopped ∧ after.calls = [] ∧ after.answers = (s.freshCall, result) :: s.answers ∧
      ofCalls (lives ++ livesOfCall v after) = record ++ [.joined id] := by
  have hHere : v.awaited? = some id := (awaited?_head h.calls).trans hAwaited
  have hLives : livesOfCall v after = [.joined id] :=
    livesOfCall_over (by rw [hAfter]; rfl) hHere h.slot (by rw [hAfter]; exact h.slot)
  rw [ofCalls_append, h.record, hLives]
  subst hAfter
  exact ⟨⟨h.slot, rfl⟩, rfl, congrArg _ h.answers, rfl⟩

/-- The call starts another session because the one that it waited for is over. -/
theorem At.another {count : Nat} {record : List Life} {next : AfterStart} {grace : UInt64}
    {log : List LogLine} (h : s.At stage none count record lives v)
    (hAwaited : stage.awaited? = some id)
    (hAfter : after = v.setStopped.launched ⟨s.freshCall, stage⟩ [] dirs grace next log) :
    s.At (.starting count next) none (count + 1) (record ++ [.joined id, .spawned count])
        (lives ++ livesOfCall v after) after ∧
      after.Tried count dirs grace (v.spawn dirs grace) := by
  have hHere : v.awaited? = some id := (awaited?_head h.calls).trans hAwaited
  have hCount : after.sessions.length = v.sessions.length + 1 := by
    rw [hAfter]
    exact List.length_append
  have hLives : livesOfCall v after = [.joined id, .spawned v.sessions.length] :=
    livesOfCall_another hHere h.slot (by rw [hAfter]; exact h.slot) hCount
  have hRecord : ofCalls (lives ++ livesOfCall v after) =
      record ++ [.joined id, .spawned v.sessions.length] := by
    rw [ofCalls_append, h.record, hLives]
    rfl
  rw [← h.count]
  subst hAfter
  exact ⟨⟨rfl, h.slot, h.answers, hCount, hRecord⟩, List.getElem?_concat_length, rfl, rfl⟩

/-- An update finds the session that it has ended over; it starts another one if there was no
crash. -/
theorem At.joined {count : Nat} {record : List Life} {r : Replacement}
    (h : s.At (.joining id (some r)) none count record lives v)
    (hSession : v.session? id = some a) (hDirs : r.dirs ≠ []) (hCall : v.stepCall = some after) :
    (∃ engine reason, a.phase = .finished engine (some reason) ∧ after.Stopped ∧
      after.calls = [] ∧
      after.answers = (s.freshCall, .error (crashReport a.task reason)) :: s.answers ∧
      ofCalls (lives ++ livesOfCall v after) = record ++ [.joined id]) ∨
    ∃ engine, a.phase = .finished engine none ∧
      s.At (.starting count (.orRestore r.previous r.grace)) none (count + 1)
        (record ++ [.joined id, .spawned count]) (lives ++ livesOfCall v after) after ∧
      after.Tried count r.dirs r.grace (v.spawn r.dirs r.grace) := by
  -- the session is over: a crash ends the update, and so would directories that are empty
  cases stepCall_cases h.calls hCall with
  | refused request e log hStage hWhy hAfter => cases hStage
  | launched dirs grace log hStage hFree hDirs hAfter => cases hStage
  | ending request other next log hStage hHeld hEnds hAfter => cases hStage
  | started other next session log hStage hThere hReady hAfter => cases hStage
  | ended other session result log hAwaited hThere hVerdict hAfter =>
    have hOver := h.ended hAwaited hAfter
    cases hAwaited
    obtain rfl := Option.some.inj (hThere.symm.trans hSession)
    cases hVerdict with
    | aborted other engine reason next hPhase => exact Or.inl ⟨engine, reason, hPhase, hOver⟩
    | irreplaceable other engine r hPhase hNone => exact absurd hNone hDirs
  | another other session dirs grace next log hAwaited hThere hSome hAnother hAfter =>
    have hNext := h.another hAwaited hAfter
    cases hAwaited
    obtain rfl := Option.some.inj (hThere.symm.trans hSession)
    cases hAnother with
    | replacing other engine r hPhase => exact Or.inr ⟨engine, hPhase, hNext⟩

/-- An update finds the session that it has started ready, or failed; then it starts the previous
directories, unless it has done so. -/
theorem At.started {count : Nat} {record : List Life} {next : AfterStart}
    (h : s.At (.starting id next) none count record lives v)
    (hSession : v.session? id = some a)
    (hPrevious : ∀ previous grace, next = .orRestore previous grace → previous ≠ [])
    (hCall : v.stepCall = some after) :
    (after.Runs id a.roots a.grace ∧ after.calls = [] ∧
      after.answers = (s.freshCall, next.result) :: s.answers ∧
      ofCalls (lives ++ livesOfCall v after) = record) ∨
    ∃ e, a.startError? = some e ∧
      (∀ previous grace, next = .orRestore previous grace →
        s.At (.starting count (.restored e)) none (count + 1)
            (record ++ [.joined id, .spawned count]) (lives ++ livesOfCall v after) after ∧
          after.Tried count previous grace (v.spawn previous grace)) ∧
      ∀ first, next = .restored first → after.Stopped ∧ after.calls = [] ∧
        after.answers = (s.freshCall, .error first) :: s.answers ∧
        ofCalls (lives ++ livesOfCall v after) = record ++ [.joined id] := by
  -- the session is ready, or it failed; what comes after a failure is what the stage says
  cases stepCall_cases h.calls hCall with
  | refused request e log hStage hWhy hAfter => cases hStage
  | launched dirs grace log hStage hFree hDirs hAfter => cases hStage
  | ending request other next log hStage hHeld hEnds hAfter => cases hStage
  | started other next session log hStage hThere hReady hAfter =>
    cases hStage
    obtain rfl := Option.some.inj (hThere.symm.trans hSession)
    have hLives : livesOfCall v after = [] :=
      livesOfCall_started (by rw [hAfter]; rfl) (awaited?_head h.calls) h.slot (by rw [hAfter]; rfl)
    rw [hLives, List.append_nil, h.record]
    subst hAfter
    exact Or.inl ⟨⟨rfl, rfl, session, hThere, rfl, rfl, hReady⟩, rfl, congrArg _ h.answers, rfl⟩
  | ended other session result log hAwaited hThere hVerdict hAfter =>
    right
    have hOver := h.ended hAwaited hAfter
    cases hAwaited
    obtain rfl := Option.some.inj (hThere.symm.trans hSession)
    cases hVerdict with
    | unstarted other e hError =>
      exact ⟨e, hError, fun previous grace hNext => (by cases hNext),
        fun first hNext => (by cases hNext)⟩
    | unrestored other e first hError =>
      refine ⟨e, hError, fun previous grace hNext => (by cases hNext), fun first hNext => ?_⟩
      cases hNext
      exact hOver
    | unrestorable other e previous grace hError hNone =>
      exact absurd hNone (hPrevious previous grace rfl)
  | another other session dirs grace next log hAwaited hThere hSome hAnother hAfter =>
    right
    have hNext := h.another hAwaited hAfter
    cases hAwaited
    obtain rfl := Option.some.inj (hThere.symm.trans hSession)
    cases hAnother with
    | restoring other e previous grace hError =>
      refine ⟨e, hError, fun previous grace hSame => ?_, fun first hNone => (by cases hNone)⟩
      cases hSame
      exact hNext

/-! ## The stages of an update -/

/-- What is known when an update obtains the lock that exchanges the session with a number. -/
structure Exchange (s : Service) (dirs : List Path) (id : SessionId) (old : Session) : Prop where
  idle : s.calls = []
  valid : validateDirs s.disk dirs = .ok ()
  held : s.slot = some id
  session : s.session? id = some old
  roots : old.roots ≠ []
  tidy : (s.begin (.update dirs)).Tidy
  /-- A session that is over in order has flushed what was dirty. -/
  flushes : ∀ moves lives v a engine, Steps (s.begin (.update dirs)) moves lives v →
    v.session? id = some a → a.phase = .finished engine none →
    Flushed old.dirty ((s.begin (.update dirs)).rounds id moves)

/-- Where an update is, unless it has been answered. -/
inductive Trail (s : Service) (dirs : List Path) (id : SessionId) (old : Session)
    (moves : List Move) (lives : List Life) (v : Service) : Prop where
  | queued (hAt : s.At (.waiting (.update dirs)) (some id) s.sessions.length [] lives v)
  | joining
      (hAt : s.At (.joining id (some ⟨old.roots, Path.dedup dirs, old.grace⟩)) none
        s.sessions.length [.granted s.freshCall (.update dirs), .ended id] lives v)
  | starting (first : Session)
      (hAt : s.At (.starting s.sessions.length (.orRestore old.roots old.grace)) none
        (s.sessions.length + 1) [.granted s.freshCall (.update dirs), .ended id, .joined id,
          .spawned s.sessions.length] lives v)
      (hFirst : v.Tried s.sessions.length (Path.dedup dirs) old.grace first)
      (hFlushed : s.FlushedFirst dirs id old.dirty moves)
  | restoring (first second : Session) (e : WatchError)
      (hAt : s.At (.starting (s.sessions.length + 1) (.restored e)) none
        (s.sessions.length + 1 + 1) [.granted s.freshCall (.update dirs), .ended id, .joined id,
          .spawned s.sessions.length, .joined s.sessions.length,
          .spawned (s.sessions.length + 1)] lives v)
      (hFirst : v.Tried s.sessions.length (Path.dedup dirs) old.grace first)
      (hError : first.startError? = some e)
      (hSecond : v.Tried (s.sessions.length + 1) old.roots old.grace second)
      (hFlushed : s.FlushedFirst dirs id old.dirty moves)
  | answered (hCalls : v.calls = [])

theorem FlushedFirst.later {dirty : List Path} (h : s.FlushedFirst dirs id dirty moves)
    (more : List Move) : s.FlushedFirst dirs id dirty (moves ++ more) := by
  obtain ⟨front, back, lives, t, rfl, hFound⟩ := h
  exact ⟨front, back ++ more, lives, t, List.append_assoc .., hFound⟩

/-- What a session was started over stays. -/
theorem Tried.later {grace : UInt64} (h : v.Tried id dirs grace a) (hTidy : v.Tidy)
    (hStep : Step v move more after) : ∃ b, after.Tried id dirs grace b ∧ a.Evolves b := by
  obtain ⟨hSession, hRoots, hGrace⟩ := h
  obtain ⟨b, hb, hEvolves⟩ := hTidy.evolves hStep hSession
  exact ⟨b, ⟨hb, hEvolves.roots.trans hRoots, hEvolves.grace.trans hGrace⟩, hEvolves⟩

/-- Sessions and the world leave an update at its stage. -/
theorem Trail.others (h : s.Trail dirs id old moves lives v) (hTidy : v.Tidy)
    (hStep : Step v move more after) (hBegin : move.isBegin = false) (hCall : move ≠ .call) :
    s.Trail dirs id old (moves ++ [move]) (lives ++ more) after := by
  cases h with
  | queued hAt => exact .queued (hAt.others hStep hBegin hCall)
  | joining hAt => exact .joining (hAt.others hStep hBegin hCall)
  | starting first hAt hFirst hFlushed =>
    obtain ⟨first', hFirst', -⟩ := hFirst.later hTidy hStep
    exact .starting first' (hAt.others hStep hBegin hCall) hFirst' (hFlushed.later _)
  | restoring first second e hAt hFirst hError hSecond hFlushed =>
    obtain ⟨first', hFirst', hEvolves⟩ := hFirst.later hTidy hStep
    obtain ⟨second', hSecond', -⟩ := hSecond.later hTidy hStep
    exact .restoring first' second' e (hAt.others hStep hBegin hCall) hFirst'
      (hEvolves.startError? hError) hSecond' (hFlushed.later _)
  | answered hCalls => exact .answered ((kept_by_others hStep hBegin hCall).1.trans hCalls)

/-- **A step of an update** leads to the next stage, or to an end. -/
theorem Trail.call (h : s.Trail dirs id old moves lives v) (hExchange : s.Exchange dirs id old)
    (run : Steps (s.begin (.update dirs)) moves lives v) (hCall : v.stepCall = some after) :
    s.Trail dirs id old (moves ++ [.call]) (lives ++ livesOfCall v after) after ∧
        after.calls ≠ [] ∨
      after.calls = [] ∧ ∃ outcome,
        s.UpdateEnds dirs (moves ++ [.call]) (lives ++ livesOfCall v after) after outcome := by
  have hTidy := run.tidy hExchange.tidy
  have hStep : Step v .call (livesOfCall v after) after := .call hCall
  have hDirs : Path.dedup dirs ≠ [] := fun hNone =>
    ne_nil_of_validateDirs hExchange.valid (Path.dedup_eq_nil.mp hNone)
  -- the session before, as it is now
  obtain ⟨a, ha, hEvolves⟩ := run.evolves hExchange.tidy
    ((session?_begin s (.update dirs) id).trans hExchange.session)
  cases h with
  | queued hAt =>
    have hNext := hAt.ending ha hCall
    rw [hEvolves.roots, hEvolves.grace] at hNext
    exact Or.inl ⟨.joining hNext, by simp [hNext.calls]⟩
  | joining hAt =>
    rcases hAt.joined ha hDirs hCall with
      ⟨engine, reason, hPhase, hStopped, hDone, hAnswer, hRecord⟩ | ⟨engine, hPhase, hNext, hTried⟩
    · obtain ⟨b, hb, hLater⟩ := hTidy.evolves hStep ha
      have hOver : a.isLive = false := by simp [Session.isLive, hPhase]
      rw [hEvolves.task] at hAnswer
      exact Or.inr ⟨hDone, .aborted, .aborted id old b engine reason hExchange.held
        hExchange.session hb ((hLater.ended hOver).1.trans hPhase) hStopped hAnswer hRecord⟩
    · -- up to here the update has spawned nothing
      have hFlushed : s.FlushedFirst dirs id old.dirty (moves ++ [.call]) := by
        refine ⟨moves, [.call], lives, v, rfl, run, fun fresh hSpawned => ?_,
          hExchange.flushes moves lives v a engine run ha hPhase⟩
        have hMem : .spawned fresh ∈ ofCalls lives := List.mem_filter.mpr ⟨hSpawned, rfl⟩
        rw [hAt.record] at hMem
        simp at hMem
      exact Or.inl ⟨.starting _ hNext hTried hFlushed, by simp [hNext.calls]⟩
  | starting first hAt hFirst hFlushed =>
    have hPrevious : ∀ previous grace,
        AfterStart.orRestore old.roots old.grace = .orRestore previous grace → previous ≠ [] := by
      rintro previous grace hSame
      cases hSame
      exact hExchange.roots
    rcases hAt.started hFirst.1 hPrevious hCall with
      ⟨hRuns, hDone, hAnswer, hRecord⟩ | ⟨e, hError, hAgain, -⟩
    · rw [hFirst.2.1, hFirst.2.2] at hRuns
      exact Or.inr ⟨hDone, .replaced, .replaced id old hExchange.held hExchange.session
        (hFlushed.later _) hRuns hAnswer hRecord⟩
    · obtain ⟨hNext, hSecond⟩ := hAgain _ _ rfl
      obtain ⟨first', hFirst', hLater⟩ := hFirst.later hTidy hStep
      exact Or.inl ⟨.restoring first' _ e hNext hFirst' (hLater.startError? hError) hSecond
        (hFlushed.later _), by simp [hNext.calls]⟩
  | restoring first second e hAt hFirst hError hSecond hFlushed =>
    obtain ⟨first', hFirst', hLater⟩ := hFirst.later hTidy hStep
    have hError' := hLater.startError? hError
    rcases hAt.started hSecond.1 (fun _ _ hNone => by cases hNone) hCall with
      ⟨hRuns, hDone, hAnswer, hRecord⟩ | ⟨e', hFailed, -, hStop⟩
    · rw [hSecond.2.1, hSecond.2.2] at hRuns
      exact Or.inr ⟨hDone, .failed, .failed id old first' e hExchange.held hExchange.session
        (hFlushed.later _) hFirst' hError' hAnswer (Or.inl ⟨hRuns, hRecord⟩)⟩
    · obtain ⟨hStopped, hDone, hAnswer, hRecord⟩ := hStop e rfl
      obtain ⟨second', hSecond', hLater'⟩ := hSecond.later hTidy hStep
      exact Or.inr ⟨hDone, .failed, .failed id old first' e hExchange.held hExchange.session
        (hFlushed.later _) hFirst' hError' hAnswer
        (Or.inr ⟨⟨second', e', hSecond', hLater'.startError? hFailed⟩, hStopped, hRecord⟩)⟩
  | answered hCalls =>
    obtain ⟨first, rest, hSome⟩ := exists_call hCall
    cases hCalls.symm.trans hSome

/-- **All the way** an update is at one of its stages, or has been answered. -/
theorem Exchange.trail (h : s.Exchange dirs id old)
    (run : Steps (s.begin (.update dirs)) moves lives v) :
    (∀ move ∈ moves, move.isBegin = false) → s.Trail dirs id old moves lives v := by
  -- by induction on the moves; at an end there is no call left, and nobody begins another one
  induction run with
  | nil =>
    intro _
    rw [begin_update h.valid, h.idle]
    exact .queued ⟨rfl, h.held, rfl, rfl, rfl⟩
  | @snoc moves lives more move v after run hStep ih =>
    intro hAlone
    have hTrail := ih fun move hMove => hAlone move (List.mem_append_left _ hMove)
    have hBegin := hAlone move (by simp)
    cases hStep with
    | begin request => cases hBegin
    | call hCall =>
      rcases hTrail.call h run hCall with ⟨hNext, -⟩ | ⟨hDone, -⟩
      · exact hNext
      · exact .answered hDone
    | session other hTask =>
      exact hTrail.others (run.tidy h.tidy) (.session other hTask) hBegin (by simp)
    | outside o => exact hTrail.others (run.tidy h.tidy) (.outside o) hBegin (by simp)

/-- An update that obtains the lock while a session is held exchanges that. -/
theorem exists_exchange {rounds : SessionId → List Round} (hTidy : s.Tidy)
    (hWatched : s.WatchedAll rounds) (hIdle : s.calls = [])
    (hValid : validateDirs s.disk dirs = .ok ()) (hHeld : s.slot = some id) :
    ∃ old, s.Exchange dirs id old := by
  have hBegin : Step s (.begin (.update dirs)) [] (s.begin (.update dirs)) := .begin _
  have hBegun := hTidy.step hBegin
  obtain ⟨old, hOld, hReady⟩ := hTidy.held id hHeld
  refine ⟨old, hIdle, hValid, hHeld, hOld, (hTidy.watchable id old hOld).nonempty, hBegun,
    fun moves lives v a engine rest ha hPhase => ?_⟩
  obtain ⟨b, hb, hEvolves⟩ := rest.evolves hBegun
    ((session?_begin s (.update dirs) id).trans hOld)
  obtain rfl : a = b := Option.some.inj (ha.symm.trans hb)
  -- beginning a call is no round of a session
  have hLater : a.Watched (rounds id ++ [] ++ (s.begin (.update dirs)).rounds id moves) :=
    ((hWatched.step hTidy hBegin).steps hBegun rest id).2 a ha
  rw [List.append_nil] at hLater
  exact ((hWatched id).2 old hOld).flushed hLater hEvolves.roots hEvolves.grace hPhase
    ((hEvolves.ready (by simp [hReady])).trans hReady)

/-! ## Updates that are refused -/

/-- Without a session there is nothing to update. -/
theorem update_refused (hFree : s.slot = none) (hIdle : s.calls = []) :
    (s.withCalls [⟨number, .waiting (.update dirs)⟩]).stepCall =
      some { s with answers := (number, .error .notRunning) :: s.answers } := by
  unfold stepCall withCalls
  simp only [serve, hFree, answer, ← hIdle]

/-- As long as no session is held, an update in line is all that tells a run from one without it. -/
theorem unnoticed (hIdle : s.calls = []) (hFree : s.slot = none)
    (hValid : validateDirs s.disk dirs = .ok ())
    (run : Steps (s.begin (.update dirs)) moves lives v) :
    (∀ move ∈ moves, move.isBegin = false) → v.calls = [] ∨
      ∃ t, Steps s moves lives t ∧ t.slot = none ∧ t.calls = [] ∧ ofCalls lives = [] ∧
        v = t.withCalls [⟨s.freshCall, .waiting (.update dirs)⟩] := by
  -- by induction on the moves: each of them does the same to both runs, until the call is answered
  induction run with
  | nil =>
    intro _
    refine Or.inr ⟨s, .nil, hFree, hIdle, rfl, ?_⟩
    rw [begin_update hValid, hIdle]
    rfl
  | @snoc moves lives more move v after run hStep ih =>
    intro hAlone
    have hBegin := hAlone move (by simp)
    rcases ih fun move hMove => hAlone move (List.mem_append_left _ hMove) with
      hDone | ⟨t, hRun, hSlot, hCalls, hRecord, rfl⟩
    · left
      cases hStep with
      | begin request => cases hBegin
      | call hCall =>
        obtain ⟨first, rest, hSome⟩ := exists_call hCall
        cases hDone.symm.trans hSome
      | session id hTask => exact (stepSession_effect hTask).calls.trans hDone
      | outside o => exact (undergo_undergone v o).calls.trans hDone
    · cases hStep with
      | begin request => cases hBegin
      | call hCall =>
        rw [update_refused hSlot hCalls] at hCall
        exact Or.inl (Option.some.inj hCall ▸ hCalls)
      | session id hTask =>
        -- what the session does, it does without the update as well
        rw [stepSession_withCalls] at hTask
        obtain ⟨t', hHere, rfl⟩ := Option.map_eq_some_iff.mp hTask
        have hEffect := stepSession_effect hHere
        refine Or.inr ⟨t', hRun.snoc (.session id hHere), hEffect.slot.trans hSlot,
          hEffect.calls.trans hCalls, ?_, rfl⟩
        rw [ofCalls_append, hRecord]
        rfl
      | outside o =>
        have hUndergone := undergo_undergone t o
        refine Or.inr ⟨_, hRun.snoc (.outside o), hUndergone.slot.trans hSlot,
          hUndergone.calls.trans hCalls, ?_, undergo_withCalls t _ o⟩
        rw [ofCalls_append, hRecord]
        rfl

/-- An update without a session leaves no trace. -/
theorem ends_of_free {last : Service} (hIdle : s.calls = []) (hFree : s.slot = none)
    (hValid : validateDirs s.disk dirs = .ok ())
    (run : Steps (s.begin (.update dirs)) moves lives last)
    (hAlone : ∀ move ∈ moves, move.isBegin = false) (hCall : last.stepCall = some after) :
    s.UpdateEnds dirs (moves ++ [.call]) (lives ++ livesOfCall last after) after .untouched := by
  rcases unnoticed hIdle hFree hValid run hAlone with hDone | ⟨t, hRun, hSlot, hCalls, hRecord, rfl⟩
  · obtain ⟨first, rest, hSome⟩ := exists_call hCall
    cases hDone.symm.trans hSome
  · rw [update_refused hSlot hCalls] at hCall
    have hAfter := (Option.some.inj hCall).symm
    refine .untouched .notRunning moves lives t (Or.inr ⟨hValid, hFree, rfl⟩) (Or.inr rfl) hRun
      hAfter ?_
    have hLives : livesOfCall (t.withCalls [⟨s.freshCall, .waiting (.update dirs)⟩]) after =
        [.granted s.freshCall (.update dirs)] :=
      livesOfCall_refused (by rw [hAfter]; rfl) rfl (by rw [hAfter]; rfl)
    rw [ofCalls_append, hRecord, hLives]
    exact List.prefix_rfl

/-! ## Main result -/

/-- Calls do not get more unless some are begun. -/
theorem length_calls_le (run : Steps s moves lives v) :
    (∀ move ∈ moves, move.isBegin = false) → v.calls.length ≤ s.calls.length := by
  induction run with
  | nil => exact fun _ => Nat.le_refl _
  | @snoc moves lives more move v after run hStep ih =>
    intro hAlone
    have hSoFar := ih fun move hMove => hAlone move (List.mem_append_left _ hMove)
    have hBegin := hAlone move (by simp)
    cases hStep with
    | begin request => cases hBegin
    | call hCall =>
      obtain ⟨first, rest, hCalls, hAfter | ⟨moved, -, hAfter⟩⟩ := (stepCall_effect hCall).head
      · rw [hCalls] at hSoFar
        rw [hAfter]
        exact Nat.le_of_succ_le hSoFar
      · rw [hCalls] at hSoFar
        rwa [hAfter]
    | session id hTask => rwa [(stepSession_effect hTask).calls]
    | outside o => rwa [(undergo_undergone v o).calls]

/-- An update whose directories are no good is over as it begins. -/
theorem Completes.of_invalid {why : ConfigError} (h : s.Completes (.update dirs) moves lives after)
    (hIdle : s.calls = []) (hInvalid : validateDirs s.disk dirs = .error why) :
    moves = [] ∧ lives = [] ∧
      after = { s with answers := (s.freshCall, .error (.config why)) :: s.answers } := by
  have hBegun := begin_invalid hInvalid
  cases h with
  | atOnce hLine => exact ⟨rfl, rfl, hBegun⟩
  | inLine rest hAlone hCall hDone =>
    -- there is no call that could make a step
    have hNone := length_calls_le rest hAlone
    obtain ⟨first, line, hSome⟩ := exists_call hCall
    rw [hBegun, hSome] at hNone
    simp [hIdle] at hNone

/-- An update without a session is refused when it obtains the lock. -/
theorem Completes.of_free (h : s.Completes (.update dirs) moves lives after) (hIdle : s.calls = [])
    (hFree : s.slot = none) (hValid : validateDirs s.disk dirs = .ok ()) :
    ∃ rest others t, moves = rest ++ [.call] ∧ (∀ move ∈ rest, move.isBegin = false) ∧
      Steps s rest others t ∧
      after = { t with answers := (s.freshCall, .error .notRunning) :: t.answers } := by
  cases h with
  | atOnce hLine =>
    rw [begin_update hValid, hIdle] at hLine
    cases hLine
  | @inLine rest others last _ run hAlone hCall hDone =>
    rcases unnoticed hIdle hFree hValid run hAlone with hOver | ⟨t, hRun, hSlot, hCalls, -, rfl⟩
    · obtain ⟨first, line, hSome⟩ := exists_call hCall
      cases hOver.symm.trans hSome
    · rw [update_refused hSlot hCalls] at hCall
      exact ⟨rest, others, t, rfl, hAlone, hRun, (Option.some.inj hCall).symm⟩

/-- An update that runs alone ends in one of the ways. -/
theorem Completes.ends {rounds : SessionId → List Round}
    (h : s.Completes (.update dirs) moves lives after) (hTidy : s.Tidy)
    (hWatched : s.WatchedAll rounds) (hIdle : s.calls = []) :
    ∃ outcome, s.UpdateEnds dirs moves lives after outcome := by
  cases hValid : validateDirs s.disk dirs with
  | error why =>
    obtain ⟨rfl, rfl, hAfter⟩ := h.of_invalid hIdle hValid
    exact ⟨.untouched, .untouched (.config why) [] [] s (Or.inl ⟨why, hValid, rfl⟩) (Or.inl rfl)
      .nil hAfter List.nil_prefix⟩
  | ok _ =>
    cases h with
    | atOnce hLine =>
      rw [begin_update hValid, hIdle] at hLine
      cases hLine
    | inLine rest hAlone hCall hDone =>
      cases hSlot : s.slot with
      | none => exact ⟨_, ends_of_free hIdle hSlot hValid rest hAlone hCall⟩
      | some id =>
        obtain ⟨old, hExchange⟩ := exists_exchange hTidy hWatched hIdle hValid hSlot
        rcases (hExchange.trail rest hAlone).call hExchange rest hCall with
          ⟨-, hMore⟩ | ⟨-, hEnds⟩
        · exact absurd hDone hMore
        · exact hEnds

/-- **In a fair run** in which it is alone, an update is answered. -/
theorem FairRun.completes (fair : FairRun (s.begin (.update dirs))) (hTidy : s.Tidy)
    (hIdle : s.calls = []) (hAlone : ∀ t, (fair.move t).isBegin = false) :
    ∃ t lives, s.Completes (.update dirs) ((List.range t).map fair.move) lives (fair.state t) := by
  cases hValid : validateDirs s.disk dirs with
  | error why =>
    have hLine := congrArg Service.calls (begin_invalid hValid)
    refine ⟨0, [], ?_⟩
    rw [fair.first]
    exact .atOnce hLine
  | ok _ =>
    have hBegin : Step s (.begin (.update dirs)) [] (s.begin (.update dirs)) := .begin _
    have hCalls := congrArg Service.calls (begin_update (s := s) hValid)
    rw [hIdle] at hCalls
    have hNumber : s.freshCall ∈ (s.begin (.update dirs)).calls.map Call.id := by simp [hCalls]
    obtain ⟨t, hMove, hAnswers⟩ :=
      fair.answered (hTidy.step hBegin) ((inLine_of_idle hIdle).step hBegin) hNumber
    obtain ⟨lives, hRun⟩ := fair.steps t
    have hOthers : ∀ move ∈ (List.range t).map fair.move, move.isBegin = false := by
      intro move hMem
      obtain ⟨u, -, rfl⟩ := List.mem_map.mp hMem
      exact hAlone u
    -- there was no other call, so nothing is left in line
    obtain ⟨first, hLine, -⟩ := hAnswers.line
    have hShort := length_calls_le hRun hOthers
    rw [hLine, hCalls] at hShort
    have hDone : (fair.state (t + 1)).calls = [] := by simpa using hShort
    refine ⟨t + 1, lives ++ livesOfCall (fair.state t) (fair.state (t + 1)), ?_⟩
    rw [List.range_succ, List.map_append, List.map_singleton, hMove]
    exact .inLine hRun hOthers hAnswers.step hDone

/--
**Updates.** Whatever state a controller has come to, be it that callers gave up their calls, and
whatever directories an update is begun with, if it runs alone, then however sessions and the world
go on meanwhile, and whatever fails:

* it ends in exactly one of the four ways, refused, with the new directories watched, aborted or
  failed, as `UpdateEnds` has them;
* in a fair run it ends.
-/
theorem update_outcomes (hReach : s.Reachable) (hIdle : s.calls = []) (dirs : List Path) :
    (∀ moves lives after, s.Completes (.update dirs) moves lives after →
      ∃! outcome, s.UpdateEnds dirs moves lives after outcome) ∧
    ∀ fair : FairRun (s.begin (.update dirs)), (∀ t, (fair.move t).isBegin = false) →
      ∃ t lives, s.Completes (.update dirs) ((List.range t).map fair.move) lives
        (fair.state t) := by
  have h := hReach.consistent
  obtain ⟨rounds, hWatched⟩ := h.watched
  refine ⟨fun moves lives after hCompletes => ?_, fun fair hAlone => ?_⟩
  · obtain ⟨outcome, hEnds⟩ := hCompletes.ends h.tidy hWatched hIdle
    exact ⟨outcome, hEnds, fun other hOther => hOther.outcome_eq.trans hEnds.outcome_eq.symm⟩
  · exact fair.completes h.tidy hIdle hAlone

/-- An update whose engine cannot be connected at first: the write that the session before had
received is bumped, and the directories from before are watched again. -/
theorem update_of_sample_fails :
    atHome.Fresh ∧ ∃ s after : Service, ∃ lives,
      Steps atHome (delivery ++ [.session 0, .outside (.backend { failing := 1 })])
        [.granted 0 (.start [⟨"a"⟩] 5), .spawned 0, .acted 0, .acted 0, .acted 0] s ∧
      s.calls = [] ∧
      s.Completes (.update [⟨"a"⟩, ⟨"a"⟩])
        [.call, .session 0, .call, .session 1, .call, .session 2, .session 2, .call] lives after ∧
      s.UpdateEnds [⟨"a"⟩, ⟨"a"⟩]
        [.call, .session 0, .call, .session 1, .call, .session 2, .session 2, .call] lives after
        .failed := by
  let moves : List Move := delivery ++ [.session 0, .outside (.backend { failing := 1 })]
  let s := moves.foldl perform atHome
  let begun := s.begin (.update [⟨"a"⟩, ⟨"a"⟩])
  let others : List Move := [.call, .session 0, .call, .session 1, .call, .session 2, .session 2]
  have hFresh : atHome.Fresh := ⟨⟨rfl, rfl, rfl⟩, rfl, rfl⟩
  have hRun : Steps atHome moves (atHome.record moves) s :=
    steps_of_possible (by decide +kernel)
  have hOthers : Steps begun others (begun.record others) (others.foldl perform begun) :=
    steps_of_possible (by decide +kernel)
  let last := others.foldl perform begun
  have hCall : last.stepCall.isSome = true := by decide +kernel
  have hDone : (last.perform .call).calls.isEmpty = true := by decide +kernel
  have hCompletes : s.Completes (.update [⟨"a"⟩, ⟨"a"⟩]) (others ++ [.call]) _ _ :=
    .inLine hOthers (by decide) (stepCall_perform hCall) (List.isEmpty_iff.mp hDone)
  have hReach : s.Reachable := (Reachable.fresh hFresh).steps hRun
  obtain ⟨outcome, hEnds, -⟩ := (update_outcomes hReach rfl _).1 _ _ _ hCompletes
  have hLength : (ofCalls (begun.record others ++ livesOfCall last (last.perform .call))).length =
      6 := by decide +kernel
  obtain rfl : outcome = .failed := hEnds.outcome_eq.trans (congrArg _ hLength)
  exact ⟨hFresh, s, _, _, hRun, rfl, hCompletes, hEnds⟩

end Service

end TreeWatch
