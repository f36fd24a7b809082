import Mathlib.Algebra.GroupWithZero.Nat
import Mathlib.Data.Nat.Find
import Mathlib.Data.Nat.Pairing
import TreeWatch.Proofs.Exclusivity
import TreeWatch.Proofs.Watches

/-!
# Every call is answered

A call waits for the lock, for a session to become ready or for a session to end. Whichever it is,
somebody can make a step that brings the answer nearer, as long as tasks that can go on do so some
time. `FairRun` are the infinite runs in which they do; there is no assumption on the world and
none on the calls that others begin.

Main results:
  * `stepCall_isSome`: the call with the lock can go on exactly if what it waits for has come about
  * `FairRun.answered`: in a fair run every call in line is answered
  * `takingTurns`: from every state there is a fair run
-/

namespace TreeWatch

/-- A move of a task: of the call with the lock, or of a session. -/
def Move.isTask : Move → Bool
  | .call | .session _ => true
  | .begin _ | .outside _ => false

/-- How many steps of its task a session is away from what a call waits for, plus one for the call.
-/
def Stage.work (stage : Stage) (session : Session) : Nat :=
  match stage with
  | .waiting _ => 1
  | .joining _ _ => if session.isLive then 2 else 1
  | .starting _ _ =>
    if session.ready.isSome || !session.isLive then 1
    else match session.phase with
      | .connecting => 3
      | _ => 2

/-- A bound on the steps that are left once what a call waits for has come about. -/
def Stage.later : Stage → Nat
  | .waiting _ => 8
  | .joining _ (some _) => 6
  | .joining _ none => 0
  | .starting _ (.orRestore _ _) => 3
  | .starting _ _ => 0

theorem Stage.work_pos (stage : Stage) (session : Session) : 0 < stage.work session := by
  unfold Stage.work
  split
  · exact Nat.one_pos
  · split <;> omega
  · split
    · exact Nat.one_pos
    · split <;> omega

namespace Service

/-- What a call at a stage waits for has come about. -/
def Met (s : Service) (stage : Stage) : Prop :=
  ∀ id, stage.awaited? = some id →
    ∃ session, s.session? id = some session ∧ stage.work session = 1

variable {s s₀ after : Service} {moves : List Move} {lives more : List Life} {move : Move}
  {id : Nat} {a b session : Session} {first : Call} {rest : List Call}

/-- **The call with the lock** can go on exactly if what it waits for has come about. -/
theorem stepCall_isSome (hCalls : s.calls = first :: rest) :
    s.stepCall.isSome = true ↔ s.Met first.stage := by
  unfold stepCall Met
  rw [hCalls]
  -- by what the call waits for, and by what has become of the session that it waits for
  cases hStage : first.stage with
  | waiting request => simp [hStage, Stage.awaited?]
  | joining id next =>
    cases hSession : s.session? id with
    | none => simp [hStage, Stage.awaited?, hSession]
    | some session =>
      cases hPhase : session.phase <;>
        simp [hStage, Stage.awaited?, Stage.work, Session.isLive, hSession, hPhase]
  | starting id next =>
    cases hSession : s.session? id with
    | none => simp [hStage, Stage.awaited?, hSession]
    | some session =>
      cases hReady : session.ready with
      | none =>
        cases hPhase : session.phase with
        | finished engine crash =>
          cases crash <;>
            simp [hStage, Stage.awaited?, Stage.work, Session.isLive, hSession, hReady, hPhase]
        | connecting | registering c | watching c =>
          simp [hStage, Stage.awaited?, Stage.work, Session.isLive, hSession, hReady, hPhase]
      | some result =>
        cases result <;>
          simp [hStage, Stage.awaited?, Stage.work, hSession, hReady]

/-! ## Whose turn it is -/

/-- The move that brings an answer nearer: the call with the lock goes on, or the session that it
waits for makes a step. -/
def turnOf (s : Service) : Move :=
  if s.stepCall.isSome then .call
  else
    match s.awaited? with
    | some id => .session id
    | none => .call

theorem turnOf_isTask (s : Service) : s.turnOf.isTask = true := by
  unfold turnOf
  split
  · rfl
  · split <;> rfl

theorem turnOf_met (hCalls : s.calls = first :: rest) (hMet : s.Met first.stage) :
    s.turnOf = .call := by
  rw [turnOf, if_pos ((stepCall_isSome hCalls).mpr hMet)]

theorem turnOf_unmet (hCalls : s.calls = first :: rest) (hMet : ¬ s.Met first.stage)
    (hAwaited : first.stage.awaited? = some id) : s.turnOf = .session id := by
  rw [turnOf, if_neg (mt (stepCall_isSome hCalls).mp hMet), awaited?_head hCalls, hAwaited]

theorem Expects.awaited {call : Call} (h : s.Expects call)
    (hAwaited : call.stage.awaited? = some id) : ∃ session, s.session? id = some session := by
  cases hStage : call.stage with
  | waiting request => rw [hStage] at hAwaited; cases hAwaited
  | joining other next =>
    rw [hStage] at hAwaited
    cases hAwaited
    obtain ⟨session, hSession, -⟩ := h.joining _ _ hStage
    exact ⟨session, hSession⟩
  | starting other next =>
    rw [hStage] at hAwaited
    cases hAwaited
    exact h.starting _ _ hStage

/-- A call that cannot go on waits for a session, and that has work to do. -/
theorem exists_of_unmet (hTidy : s.Tidy) (hFirst : first ∈ s.calls) (hMet : ¬ s.Met first.stage) :
    ∃ id session, first.stage.awaited? = some id ∧ s.session? id = some session ∧
      first.stage.work session ≠ 1 := by
  unfold Met at hMet
  push Not at hMet
  obtain ⟨id, hAwaited, hNot⟩ := hMet
  obtain ⟨session, hSession⟩ := (hTidy.expects first hFirst).awaited hAwaited
  exact ⟨id, session, hAwaited, hSession, hNot session hSession⟩

/-- What a session that has work to do for a call is at. -/
theorem phase_of_work (hTidy : s.Tidy) (hFirst : first ∈ s.calls)
    (hAwaited : first.stage.awaited? = some id) (hSession : s.session? id = some session)
    (hWork : first.stage.work session ≠ 1) :
    (∃ next, first.stage = .starting id next) ∧ session.ready = none ∧
      (session.phase = .connecting ∨ ∃ c, session.phase = .registering c) ∨
    (∃ next, first.stage = .joining id next) ∧
      ∃ c, session.phase = .watching c ∧ session.cancelled = true := by
  have hOrder := hTidy.inOrder id session hSession
  have hExpects := hTidy.expects first hFirst
  -- the phases of a session in order leave a call something to wait for in these cases only
  cases hStage : first.stage with
  | waiting request => rw [hStage] at hAwaited; cases hAwaited
  | starting other next =>
    rw [hStage] at hAwaited hWork
    cases hAwaited
    refine Or.inl ⟨⟨next, rfl⟩, ?_⟩
    cases hOrder with
    | connecting hPhase hReady hOpen => exact ⟨hReady, Or.inl hPhase⟩
    | registering registrar hPhase hReady => exact ⟨hReady, Or.inr ⟨_, hPhase⟩⟩
    | watching c hPhase hReady => simp [Stage.work, hReady] at hWork
    | finished engine crash hPhase => simp [Stage.work, Session.isLive, hPhase] at hWork
  | joining other next =>
    obtain ⟨session', hSame, hReady, hCancelled⟩ := hExpects.joining other next hStage
    rw [hStage] at hAwaited hWork
    cases hAwaited
    obtain rfl : session = session' := Option.some.inj (hSession.symm.trans hSame)
    refine Or.inr ⟨⟨next, rfl⟩, ?_⟩
    cases hOrder with
    | connecting hPhase hNone hOpen => rw [hReady] at hNone; cases hNone
    | registering registrar hPhase hNone => rw [hReady] at hNone; cases hNone
    | watching c hPhase hOk => exact ⟨c, hPhase, hCancelled⟩
    | finished engine crash hPhase => simp [Stage.work, Session.isLive, hPhase] at hWork

/-- **Somebody can go on** while there are calls. -/
theorem enabled_turnOf (hTidy : s.Tidy) (hCalls : s.calls ≠ []) : s.Enabled s.turnOf := by
  obtain ⟨first, rest, hCalls⟩ := List.exists_cons_of_ne_nil hCalls
  by_cases hMet : s.Met first.stage
  · rw [turnOf_met hCalls hMet]
    exact (stepCall_isSome hCalls).mpr hMet
  · have hFirst : first ∈ s.calls := hCalls ▸ List.mem_cons_self
    obtain ⟨id, session, hAwaited, hSession, hWork⟩ := exists_of_unmet hTidy hFirst hMet
    rw [turnOf_unmet hCalls hMet hAwaited]
    refine stepSession_ready hSession ?_
    rcases phase_of_work hTidy hFirst hAwaited hSession hWork with ⟨-, -, hPhase⟩ | ⟨-, hPhase⟩
    · exact hPhase.imp_right Or.inl
    · exact Or.inr (Or.inr hPhase)

/-! ## How far it is -/

/-- The calls that are answered before a call and with it. -/
def upTo (number : Nat) : List Call → List Call
  | [] => []
  | call :: rest => if call.id = number then [call] else call :: upTo number rest

/-- A bound on the steps until what a call waits for leads to its answer, if it had the lock. -/
def toGoAt (s : Service) (stage : Stage) : Nat :=
  stage.later + match stage.awaited?.bind s.session? with
    | some session => stage.work session
    | none => 1

/-- A bound on the steps until a call is answered. -/
def toGo (s : Service) (number : Nat) : Nat :=
  ((upTo number s.calls).map fun call => s.toGoAt call.stage).sum

theorem upTo_append {number : Nat} {line : List Call} :
    ∀ {calls : List Call}, number ∈ calls.map Call.id →
      upTo number (calls ++ line) = upTo number calls
  | [], h => by simp at h
  | call :: rest, h => by
    rw [List.cons_append, upTo, upTo]
    by_cases hHere : call.id = number
    · rw [if_pos hHere, if_pos hHere]
    · rw [if_neg hHere, if_neg hHere]
      have hRest : number ∈ rest.map Call.id := by
        rw [List.map_cons] at h
        exact (List.mem_cons.mp h).resolve_left (Ne.symm hHere)
      rw [upTo_append hRest]

theorem mem_of_mem_upTo {number : Nat} {call : Call} :
    ∀ {calls : List Call}, call ∈ upTo number calls → call ∈ calls
  | [], h => by simp [upTo] at h
  | other :: rest, h => by
    rw [upTo] at h
    split at h
    · exact List.mem_singleton.mp h ▸ List.mem_cons_self
    · rcases List.mem_cons.mp h with rfl | hRest
      · exact List.mem_cons_self
      · exact List.mem_cons_of_mem _ (mem_of_mem_upTo hRest)

theorem toGoAt_waiting (s : Service) (request : Request) : s.toGoAt (.waiting request) = 9 :=
  rfl

theorem toGoAt_eq {stage : Stage} (hAwaited : stage.awaited? = some id)
    (hSession : s.session? id = some a) :
    s.toGoAt stage = stage.later + stage.work a := by
  rw [toGoAt, hAwaited, Option.bind_some, hSession]

/-! ## Moves of others -/

/-- What the world does to a session changes nothing of the work that a call waits for. -/
theorem work_undergoes {sink sink' : Option SessionId} (h : Undergoes sink sink' id a b)
    (stage : Stage) : stage.work b = stage.work a := by
  have hLive := h.phase.isLive_eq
  have hReady := h.ready
  have hPhase := h.phase
  unfold Stage.work
  rw [hLive, hReady]
  generalize a.phase = before at hPhase
  generalize b.phase = after at hPhase
  cases hPhase <;> rfl

/-- What has come about in a session stays so. -/
theorem work_evolves {stage : Stage} (h : a.Evolves b) (hWork : stage.work a = 1) :
    stage.work b = 1 := by
  have hOver : a.isLive = false → b.isLive = false := fun hOver => by
    rwa [Session.isLive, (h.ended hOver).1]
  cases stage with
  | waiting request => rfl
  | joining id next =>
    have hEnd : a.isLive = false := by simpa [Stage.work] using hWork
    simp [Stage.work, hOver hEnd]
  | starting id next =>
    by_cases hDone : (a.ready.isSome || !a.isLive) = true
    · have hStill : (b.ready.isSome || !b.isLive) = true := by
        rcases Bool.or_eq_true_iff.mp hDone with hReady | hEnd
        · rw [h.ready (by rintro hNone; simp [hNone] at hReady), hReady]
          rfl
        · rw [hOver (by simpa using hEnd)]
          simp
      simp [Stage.work, hStill]
    · -- a session that has not reported and is not over has work to do
      simp only [Stage.work, if_neg hDone] at hWork
      split at hWork <;> omega

/-- As long as nobody touches what the first call waits for, it is nobody else's turn, and nobody
gets nearer to an answer or further from it. -/
theorem turn_kept {line : List Call} (hTidy : s.Tidy) (hCalls : s.calls = first :: rest)
    (hRest : ∀ call ∈ rest, ∃ request, call.stage = .waiting request)
    (hAfter : after.calls = s.calls ++ line)
    (hWork : ∀ id a, first.stage.awaited? = some id → s.session? id = some a →
      ∃ b, after.session? id = some b ∧ first.stage.work b = first.stage.work a) :
    after.turnOf = s.turnOf ∧ ∀ number ∈ s.calls.map Call.id,
      number ∈ after.calls.map Call.id ∧ after.toGo number = s.toGo number := by
  have hFirst : first ∈ s.calls := hCalls ▸ List.mem_cons_self
  have hLine : after.calls = first :: (rest ++ line) := by rw [hAfter, hCalls]; rfl
  constructor
  · by_cases hMet : s.Met first.stage
    · have hStill : after.Met first.stage := by
        intro id hAwaited
        obtain ⟨a, ha, hDone⟩ := hMet id hAwaited
        obtain ⟨b, hb, hSame⟩ := hWork id a hAwaited ha
        exact ⟨b, hb, hSame.trans hDone⟩
      rw [turnOf_met hCalls hMet, turnOf_met hLine hStill]
    · obtain ⟨id, a, hAwaited, ha, hNot⟩ := exists_of_unmet hTidy hFirst hMet
      have hStill : ¬ after.Met first.stage := by
        intro hNow
        obtain ⟨b, hb, hSame⟩ := hWork id a hAwaited ha
        obtain ⟨b', hb', hDone⟩ := hNow id hAwaited
        obtain rfl : b = b' := Option.some.inj (hb.symm.trans hb')
        exact hNot (hSame.symm.trans hDone)
      rw [turnOf_unmet hCalls hMet hAwaited, turnOf_unmet hLine hStill hAwaited]
  · intro number hNumber
    rw [hAfter, List.map_append]
    refine ⟨List.mem_append_left _ hNumber, ?_⟩
    unfold toGo
    rw [hAfter, upTo_append hNumber]
    congr 1
    apply List.map_congr_left
    intro call hCall
    have hCall := mem_of_mem_upTo hCall
    rw [hCalls] at hCall
    rcases List.mem_cons.mp hCall with rfl | hBehind
    · -- only the first call waits for a session
      cases hAwaited : call.stage.awaited? with
      | none => simp only [toGoAt, hAwaited, Option.bind_none]
      | some id =>
        obtain ⟨a, ha⟩ := (hTidy.expects call hFirst).awaited hAwaited
        obtain ⟨b, hb, hSame⟩ := hWork id a hAwaited ha
        rw [toGoAt_eq hAwaited ha, toGoAt_eq hAwaited hb, hSame]
    · obtain ⟨request, hStage⟩ := hRest call hBehind
      rw [hStage]
      rfl

/-- **Moves of others** leave it to whose turn it is, and get nobody nearer to an answer or further
from it. -/
theorem turn_of_others (hTidy : s.Tidy) (hCalls : s.calls ≠ [])
    (hLine : ∀ call ∈ s.calls.tail, ∃ request, call.stage = .waiting request)
    (hStep : Step s move more after) (hOther : move ≠ s.turnOf) :
    after.turnOf = s.turnOf ∧ ∀ number ∈ s.calls.map Call.id,
      number ∈ after.calls.map Call.id ∧ after.toGo number = s.toGo number := by
  obtain ⟨first, rest, hCalls⟩ := List.exists_cons_of_ne_nil hCalls
  have hRest : ∀ call ∈ rest, ∃ request, call.stage = .waiting request := by rwa [hCalls] at hLine
  have hFirst : first ∈ s.calls := hCalls ▸ List.mem_cons_self
  cases hStep with
  | begin request =>
    rcases begin_effect s request with ⟨-, hBegun⟩ | ⟨dirs, e, -, -, hBegun⟩
    · rw [hBegun]
      exact turn_kept hTidy hCalls hRest rfl fun id a _ ha => ⟨a, ha, rfl⟩
    · rw [hBegun]
      exact turn_kept hTidy hCalls hRest (List.append_nil _).symm fun id a _ ha => ⟨a, ha, rfl⟩
  | call hCall =>
    -- a call that goes on could do so
    refine absurd ?_ hOther
    have hMet := (stepCall_isSome hCalls).mp (by rw [hCall]; rfl)
    exact (turnOf_met hCalls hMet).symm
  | session id hTask =>
    obtain ⟨session, b, hSession, hActs, hApart⟩ := stepSession_cases hTask
    refine turn_kept hTidy hCalls hRest (hApart.calls.trans (List.append_nil _).symm) ?_
    intro other a hAwaited ha
    rw [hApart.session?]
    by_cases hHere : id = other
    · subst hHere
      -- the session is awaited and it is not its turn, so it has come about already
      obtain rfl : session = a := Option.some.inj (hSession.symm.trans ha)
      have hMet : s.Met first.stage := by
        by_contra hMet
        exact hOther (turnOf_unmet hCalls hMet hAwaited).symm
      obtain ⟨session', hSame, hDone⟩ := hMet id hAwaited
      obtain rfl : session = session' := Option.some.inj (hSession.symm.trans hSame)
      have hEvolves := ((hTidy.inOrder id session hSession).acts hActs hSession).2
      refine ⟨b, by rw [if_pos rfl, ha]; rfl, ?_⟩
      rw [hDone, work_evolves hEvolves hDone]
    · exact ⟨a, by rw [if_neg hHere, ha], rfl⟩
  | outside o =>
    have hUndergone := undergo_undergone s o
    refine turn_kept hTidy hCalls hRest (hUndergone.calls.trans (List.append_nil _).symm) ?_
    intro id a _ ha
    obtain ⟨b, hb, hUndergoes⟩ := hUndergone.later ha
    exact ⟨b, hb, work_undergoes hUndergoes _⟩

/-! ## The move whose turn it is -/

/-- The call with the lock has a number, goes on, and is answered and out of the line then. -/
structure Answers (s : Service) (number : Nat) (after : Service) : Prop where
  step : s.stepCall = some after
  line : ∃ first, s.calls = first :: after.calls ∧ first.id = number
  answer : ∃ result, after.answers = (number, result) :: s.answers

theorem toGoAt_pos (s : Service) (stage : Stage) : 0 < s.toGoAt stage := by
  unfold toGoAt
  split
  · exact Nat.add_pos_right _ (stage.work_pos _)
  · omega

/-- The calls behind the first one are as far from their turn as they were. -/
theorem toGo_behind (hRest : ∀ call ∈ rest, ∃ request, call.stage = .waiting request)
    (number : Nat) :
    ((upTo number rest).map fun call => after.toGoAt call.stage) =
      (upTo number rest).map fun call => s.toGoAt call.stage := by
  apply List.map_congr_left
  intro call hCall
  obtain ⟨request, hStage⟩ := hRest call (mem_of_mem_upTo hCall)
  rw [hStage, toGoAt_waiting, toGoAt_waiting]

/-- Once the first call is answered, the others are nearer. -/
theorem nearer_of_answered {result : Except WatchError Unit} (hCall : s.stepCall = some after)
    (hCalls : s.calls = first :: rest)
    (hRest : ∀ call ∈ rest, ∃ request, call.stage = .waiting request)
    (hLine : after.calls = rest) (hAnswers : after.answers = (first.id, result) :: s.answers) :
    ∀ number ∈ s.calls.map Call.id,
      s.Answers number after ∨
        number ∈ after.calls.map Call.id ∧ after.toGo number < s.toGo number := by
  intro number hNumber
  by_cases hHere : first.id = number
  · subst hHere
    exact Or.inl ⟨hCall, ⟨first, hLine ▸ hCalls, rfl⟩, result, hAnswers⟩
  · right
    rw [hCalls, List.map_cons] at hNumber
    have hBehind := (List.mem_cons.mp hNumber).resolve_left (Ne.symm hHere)
    refine ⟨hLine ▸ hBehind, ?_⟩
    unfold toGo
    rw [hCalls, hLine, upTo, if_neg hHere, List.map_cons, List.sum_cons, toGo_behind hRest]
    exact Nat.lt_add_of_pos_left (s.toGoAt_pos first.stage)

/-- Once the first call is nearer to its answer, all are. -/
theorem nearer_of_moved {stage : Stage} (hCalls : s.calls = first :: rest)
    (hRest : ∀ call ∈ rest, ∃ request, call.stage = .waiting request)
    (hLine : after.calls = ⟨first.id, stage⟩ :: rest)
    (hLess : after.toGoAt stage < s.toGoAt first.stage) :
    ∀ number ∈ s.calls.map Call.id,
      number ∈ after.calls.map Call.id ∧ after.toGo number < s.toGo number := by
  intro number hNumber
  rw [hCalls, List.map_cons] at hNumber
  rw [hLine, List.map_cons]
  refine ⟨hNumber, ?_⟩
  unfold toGo
  rw [hCalls, hLine, upTo, upTo]
  by_cases hHere : first.id = number
  · rw [if_pos hHere, if_pos hHere]
    simpa using hLess
  · rw [if_neg hHere, if_neg hHere, List.map_cons, List.map_cons, List.sum_cons, List.sum_cons,
      toGo_behind hRest]
    exact Nat.add_lt_add_right hLess _

/-- A session that was spawned right now has all of its work before it. -/
theorem toGoAt_launched (s : Service) (dirs : List Path) (grace : UInt64) (next : AfterStart)
    (log : List LogLine) :
    (s.launched first rest dirs grace next log).toGoAt (.starting s.sessions.length next) =
      (Stage.starting s.sessions.length next).later + 3 :=
  toGoAt_eq (a := s.spawn dirs grace) rfl List.getElem?_concat_length

/-- A session that was told to stop has at most one more turn to make. -/
theorem toGoAt_joining (s : Service) (id : SessionId) (next : Option Replacement) :
    s.toGoAt (.joining id next) < 9 := by
  unfold toGoAt
  split
  · next session _ =>
    have hLater : (Stage.joining id next).later ≤ 6 := by cases next <;> simp [Stage.later]
    have hWork : (Stage.joining id next).work session ≤ 2 := by
      simp only [Stage.work]
      split <;> omega
    omega
  · cases next <;> simp [Stage.later]

/-- A step of the call with the lock answers it, or gets it nearer to its answer. -/
theorem nearer_of_call (hCalls : s.calls = first :: rest)
    (hRest : ∀ call ∈ rest, ∃ request, call.stage = .waiting request)
    (hCall : s.stepCall = some after) : ∀ number ∈ s.calls.map Call.id,
      s.Answers number after ∨
        number ∈ after.calls.map Call.id ∧ after.toGo number < s.toGo number := by
  have hMet := (stepCall_isSome hCalls).mp (by rw [hCall]; rfl)
  cases stepCall_cases hCalls hCall with
  | refused request e log hStage hWhy hAfter =>
    exact hAfter ▸ nearer_of_answered (hAfter ▸ hCall) hCalls hRest rfl rfl
  | launched dirs grace log hStage hFree hDirs hAfter =>
    subst hAfter
    refine fun number hNumber => Or.inr (nearer_of_moved hCalls hRest rfl ?_ number hNumber)
    rw [toGoAt_launched, hStage, toGoAt_waiting]
    simp [Stage.later]
  | ending request id next log hStage hHeld hEnds hAfter =>
    subst hAfter
    refine fun number hNumber => Or.inr (nearer_of_moved hCalls hRest rfl ?_ number hNumber)
    rw [hStage, toGoAt_waiting]
    exact toGoAt_joining ..
  | started id next session log hStage hSession hReady hAfter =>
    exact hAfter ▸ nearer_of_answered (hAfter ▸ hCall) hCalls hRest rfl rfl
  | ended id session result log hAwaited hSession hVerdict hAfter =>
    exact hAfter ▸ nearer_of_answered (hAfter ▸ hCall) hCalls hRest rfl rfl
  | another id session dirs grace next log hAwaited hSession hDirs hAnother hAfter =>
    subst hAfter
    refine fun number hNumber => Or.inr (nearer_of_moved hCalls hRest rfl ?_ number hNumber)
    obtain ⟨session', hSame, hWork⟩ := hMet id hAwaited
    rw [toGoAt_eq hAwaited hSame, hWork, toGoAt_launched]
    generalize first.stage = stage at hAnother
    cases hAnother <;> simp [Stage.later]

/-- A step of the session that is waited for gets the call nearer to its answer. -/
theorem work_lt_of_acts (hTidy : s.Tidy) (hFirst : first ∈ s.calls)
    (hAwaited : first.stage.awaited? = some id) (hSession : s.session? id = some a)
    (hWork : first.stage.work a ≠ 1) (hActs : s.Acts id a b) :
    first.stage.work b < first.stage.work a := by
  rcases phase_of_work hTidy hFirst hAwaited hSession hWork with
    ⟨⟨next, hStage⟩, hReady, hPhase⟩ | ⟨⟨next, hStage⟩, c, hPhase, hCancelled⟩
  · rw [hStage]
    rcases hPhase with hPhase | ⟨c, hPhase⟩
    · have hBefore : (Stage.starting id next).work a = 3 := by
        simp [Stage.work, Session.isLive, hReady, hPhase]
      rw [hBefore]
      cases hActs with
      | broke | unconnected => simp [Stage.work, Session.isLive]
      | connected registrar hHere => simp [Stage.work, Session.isLive, hReady]
      | unsubscribed c engine e hHere => cases hHere.symm.trans hPhase
      | unwanted c engine hHere => cases hHere.symm.trans hPhase
      | subscribed c hHere => cases hHere.symm.trans hPhase
      | round r hRound =>
        obtain ⟨c, hHere, -⟩ := watching_of_round hSession hRound
        cases hHere.symm.trans hPhase
    · have hBefore : (Stage.starting id next).work a = 2 := by
        simp [Stage.work, Session.isLive, hReady, hPhase]
      rw [hBefore]
      cases hActs with
      | unsubscribed | unwanted | subscribed => simp [Stage.work, Session.isLive]
      | broke reason hHere => cases hHere.symm.trans hPhase
      | unconnected e hHere => cases hHere.symm.trans hPhase
      | connected registrar hHere => cases hHere.symm.trans hPhase
      | round r hRound =>
        obtain ⟨c', hHere, -⟩ := watching_of_round hSession hRound
        cases hHere.symm.trans hPhase
  · -- a session that is watching and was told to stop is over after its next round
    rw [hStage]
    have hBefore : (Stage.joining id next).work a = 2 := by
      simp [Stage.work, Session.isLive, hPhase]
    rw [hBefore]
    cases hActs with
    | round r hRound =>
      obtain ⟨c', -, hLoop⟩ := watching_of_round hSession hRound
      have hLeaves : r.leaves = true := Round.leaves_of_cancelled (by rw [hLoop]; exact hCancelled)
      simp [Stage.work, Session.afterRound_over hLeaves]
    | broke reason hHere => cases hHere.symm.trans hPhase
    | unconnected e hHere => cases hHere.symm.trans hPhase
    | connected registrar hHere => cases hHere.symm.trans hPhase
    | unsubscribed c engine e hHere => cases hHere.symm.trans hPhase
    | unwanted c engine hHere => cases hHere.symm.trans hPhase
    | subscribed c hHere => cases hHere.symm.trans hPhase

/-- **The move whose turn it is** answers a call, or gets all of them nearer to their answers. -/
theorem turn_taken (hTidy : s.Tidy) (hCalls : s.calls ≠ [])
    (hLine : ∀ call ∈ s.calls.tail, ∃ request, call.stage = .waiting request)
    (hStep : Step s s.turnOf more after) : ∀ number ∈ s.calls.map Call.id,
      s.Answers number after ∨
        number ∈ after.calls.map Call.id ∧ after.toGo number < s.toGo number := by
  obtain ⟨first, rest, hCalls⟩ := List.exists_cons_of_ne_nil hCalls
  have hRest : ∀ call ∈ rest, ∃ request, call.stage = .waiting request := by rwa [hCalls] at hLine
  by_cases hMet : s.Met first.stage
  · rw [turnOf_met hCalls hMet] at hStep
    cases hStep with
    | call hCall => exact nearer_of_call hCalls hRest hCall
  · have hFirst : first ∈ s.calls := hCalls ▸ List.mem_cons_self
    obtain ⟨id, a, hAwaited, ha, hWork⟩ := exists_of_unmet hTidy hFirst hMet
    rw [turnOf_unmet hCalls hMet hAwaited] at hStep
    cases hStep with
    | session _ hTask =>
      obtain ⟨session, b, hSession, hActs, hApart⟩ := stepSession_cases hTask
      obtain rfl : session = a := Option.some.inj (hSession.symm.trans ha)
      refine fun number hNumber => Or.inr
        (nearer_of_moved hCalls hRest (hApart.calls.trans hCalls) ?_ number hNumber)
      rw [toGoAt_eq hAwaited ha, toGoAt_eq hAwaited (hApart.changed ha)]
      exact Nat.add_lt_add_left (work_lt_of_acts hTidy hFirst hAwaited ha hWork hActs) _

/-! ## Fair runs -/

/-- An infinite run in which a task that can go on all the time does so some time. -/
structure FairRun (s₀ : Service) where
  state : Nat → Service
  move : Nat → Move
  first : state 0 = s₀
  step : ∀ t, ∃ lives, Step (state t) (move t) lives (state (t + 1))
  fair : ∀ move', move'.isTask = true → ∀ t, (∀ u, t ≤ u → (state u).Enabled move') →
    ∃ u, t ≤ u ∧ move u = move'

namespace FairRun

/-- The rest of a fair run is one. -/
def later (run : FairRun s₀) (t : Nat) : FairRun (run.state t) where
  state u := run.state (t + u)
  move u := run.move (t + u)
  first := rfl
  step u := run.step (t + u)
  fair move' hTask u hEnabled := by
    obtain ⟨v, hLe, hMove⟩ := run.fair move' hTask (t + u) fun w hw => by
      have hHere := hEnabled (w - t) (by omega)
      rwa [show t + (w - t) = w by omega] at hHere
    exact ⟨v - t, by omega, by rw [show t + (v - t) = v by omega]; exact hMove⟩

variable {number : Nat}

/-- The start of a fair run is a run. -/
theorem steps (run : FairRun s₀) (t : Nat) :
    ∃ lives, Steps s₀ ((List.range t).map run.move) lives (run.state t) := by
  induction t with
  | zero => exact ⟨[], by rw [run.first]; exact .nil⟩
  | succ t ih =>
    obtain ⟨lives, hSteps⟩ := ih
    obtain ⟨more, hStep⟩ := run.step t
    rw [List.range_succ, List.map_append]
    exact ⟨_, hSteps.snoc hStep⟩

/-- Every state of a fair run is in order. -/
theorem invariants (run : FairRun s₀) (hTidy : s₀.Tidy) (hLine : s₀.InLine) (t : Nat) :
    (run.state t).Tidy ∧ (run.state t).InLine := by
  induction t with
  | zero =>
    rw [run.first]
    exact ⟨hTidy, hLine⟩
  | succ t ih =>
    obtain ⟨hTidy, hLine⟩ := ih
    obtain ⟨more, hStep⟩ := run.step t
    exact ⟨hTidy.step hStep, hLine.step hStep⟩

/-- As long as others make their moves, it stays the turn of whose turn it is. -/
theorem unmoved (run : FairRun s₀) (hTidy : s₀.Tidy) (hLine : s₀.InLine)
    (hNumber : number ∈ s₀.calls.map Call.id) (u : Nat)
    (hOthers : ∀ v < u, run.move v ≠ s₀.turnOf) :
    (run.state u).turnOf = s₀.turnOf ∧ number ∈ (run.state u).calls.map Call.id ∧
      (run.state u).toGo number = s₀.toGo number := by
  -- the moves so far were made by others, and each of them keeps the turn and the distance
  induction u with
  | zero =>
    rw [run.first]
    exact ⟨rfl, hNumber, rfl⟩
  | succ u ih =>
    obtain ⟨hTurn, hHere, hToGo⟩ := ih fun v hv => hOthers v (by omega)
    obtain ⟨hTidy, hLine⟩ := run.invariants hTidy hLine u
    obtain ⟨more, hStep⟩ := run.step u
    have hCalls : (run.state u).calls ≠ [] := by
      rintro hNone
      simp [hNone] at hHere
    obtain ⟨hStays, hKept⟩ := turn_of_others hTidy hCalls hLine.waiting hStep
      (hTurn ▸ hOthers u (by omega))
    obtain ⟨hStill, hSame⟩ := hKept number hHere
    exact ⟨hStays.trans hTurn, hStill, hSame.trans hToGo⟩

/-- Whoever brings an answer nearer makes a move some time. -/
theorem nearer (run : FairRun s₀) (hTidy : s₀.Tidy) (hLine : s₀.InLine)
    (hNumber : number ∈ s₀.calls.map Call.id) :
    ∃ t, (run.move t = .call ∧ (run.state t).Answers number (run.state (t + 1))) ∨
      number ∈ (run.state (t + 1)).calls.map Call.id ∧
        (run.state (t + 1)).toGo number < s₀.toGo number := by
  have hNonempty {t : Nat} (hHere : number ∈ (run.state t).calls.map Call.id) :
      (run.state t).calls ≠ [] := by
    rintro hNone
    simp [hNone] at hHere
  -- if it never made one, it could all the time
  have hSome : ∃ u, run.move u = s₀.turnOf := by
    by_contra hNever
    push Not at hNever
    have hAlways (u : Nat) : (run.state u).Enabled s₀.turnOf := by
      obtain ⟨hTurn, hHere, -⟩ := run.unmoved hTidy hLine hNumber u fun v _ => hNever v
      exact hTurn ▸ enabled_turnOf (run.invariants hTidy hLine u).1 (hNonempty hHere)
    obtain ⟨u, -, hMove⟩ := run.fair _ s₀.turnOf_isTask 0 fun u _ => hAlways u
    exact hNever u hMove
  -- the first time it does
  obtain ⟨u, hMove, hFirst⟩ : ∃ u, run.move u = s₀.turnOf ∧ ∀ v < u, run.move v ≠ s₀.turnOf := by
    classical exact ⟨Nat.find hSome, Nat.find_spec hSome, fun v hv => Nat.find_min hSome hv⟩
  obtain ⟨hTurn, hHere, hToGo⟩ := run.unmoved hTidy hLine hNumber u hFirst
  obtain ⟨hTidy, hLine⟩ := run.invariants hTidy hLine u
  obtain ⟨more, hStep⟩ := run.step u
  rw [hMove, ← hTurn] at hStep
  have hTaken := turn_taken hTidy (hNonempty hHere) hLine.waiting hStep number hHere
  refine ⟨u, hTaken.imp (fun hAnswers => ⟨?_, hAnswers⟩) (And.imp_right fun hLess => hToGo ▸ hLess)⟩
  -- if the call can go on, it is its turn
  rw [hMove, ← hTurn, turnOf, if_pos (by rw [hAnswers.step]; rfl)]

/-- **In a fair run every call in line is answered.** -/
theorem answered (run : FairRun s₀) (hTidy : s₀.Tidy) (hLine : s₀.InLine)
    (hNumber : number ∈ s₀.calls.map Call.id) :
    ∃ t, run.move t = .call ∧ (run.state t).Answers number (run.state (t + 1)) := by
  -- by induction on the distance: some time it gets smaller, and the rest of the run is fair too
  generalize hBound : s₀.toGo number = bound
  induction bound using Nat.strong_induction_on generalizing s₀ with
  | h bound ih =>
    obtain ⟨t, hAnswered | ⟨hHere, hLess⟩⟩ := run.nearer hTidy hLine hNumber
    · exact ⟨t, hAnswered⟩
    · obtain ⟨hTidy, hLine⟩ := run.invariants hTidy hLine (t + 1)
      obtain ⟨u, hAnswered⟩ := ih _ (hBound ▸ hLess) (run.later (t + 1)) hTidy hLine hHere rfl
      exact ⟨t + 1 + u, hAnswered⟩

end FairRun

/-! ## Fair runs exist -/

/-- The task whose turn it is at a time if all of them take turns. -/
def taskAt (t : Nat) : Move :=
  match t.unpair.2 with
  | 0 => .call
  | id + 1 => .session id

/-- The task whose turn it is makes its move, if it can. -/
def moveAt (s : Service) (t : Nat) : Move :=
  if s.Enabled (taskAt t) then taskAt t else .outside (.clock s.now)

/-- The service once all tasks have taken turns for a time. -/
def stateAt (s : Service) : Nat → Service
  | 0 => s
  | t + 1 => (s.stateAt t).perform ((s.stateAt t).moveAt t)

theorem enabled_moveAt (s : Service) (t : Nat) : s.Enabled (s.moveAt t) := by
  unfold moveAt
  split
  · assumption
  · trivial

/-- The turns of a task never end. -/
theorem exists_taskAt (h : move.isTask = true) (t : Nat) : ∃ u, t ≤ u ∧ taskAt u = move := by
  have hTurn (turn : Nat) : t ≤ Nat.pair t turn ∧ (Nat.pair t turn).unpair.2 = turn :=
    ⟨Nat.left_le_pair t turn, by rw [Nat.unpair_pair]⟩
  cases move with
  | begin request | outside o => cases h
  | call => exact ⟨Nat.pair t 0, (hTurn 0).1, by rw [taskAt, (hTurn 0).2]⟩
  | session id => exact ⟨Nat.pair t (id + 1), (hTurn _).1, by rw [taskAt, (hTurn _).2]⟩

/-- All tasks taking turns is fair. -/
def takingTurns (s : Service) : FairRun s where
  state := s.stateAt
  move t := (s.stateAt t).moveAt t
  first := rfl
  step t := ⟨_, step_perform ((s.stateAt t).enabled_moveAt t)⟩
  fair move' hTask t hEnabled := by
    obtain ⟨u, hLe, hTurn⟩ := exists_taskAt hTask t
    exact ⟨u, hLe, by rw [moveAt, hTurn, if_pos (hEnabled u hLe)]⟩

end Service

end TreeWatch
