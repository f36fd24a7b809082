import TreeWatch.Proofs.Interleaving
import Mathlib.Data.List.Induction

/-!
# One session at a time

However calls are interleaved, the record of a run is in order (`Orderly`): a session is spawned
only while none is current, only the current session acts, is told to end or is joined, and it is
told to end once.

Main results:
  * `InLine.step`: every move keeps the calls in line, of which only the first one does anything
  * `Steps.exclusive`: every run from an unused controller keeps `Exclusive`
  * `Orderly.unjoined`, `Orderly.count_ended`, `Orderly.joined_of_lt`: what order comes to
-/

namespace TreeWatch

/-! ## Records in order -/

/-- The sessions that were spawned and not joined yet. -/
def unjoined (lives : List Life) : List SessionId :=
  lives.foldl (fun ids life =>
    match life with
    | .spawned id => ids ++ [id]
    | .joined id => ids.erase id
    | _ => ids) []

/-- A record in order, with how many sessions it has spawned and which one is current. -/
inductive Orderly : List Life → Nat → Option Nat → Prop where
  | nil : Orderly [] 0 none
  | granted {lives : List Life} {n : Nat} {current : Option Nat} (call : Nat)
      (request : Request) :
      Orderly lives n current → Orderly (lives ++ [.granted call request]) n current
  | spawned {lives : List Life} {n : Nat} :
      Orderly lives n none → Orderly (lives ++ [.spawned n]) (n + 1) (some n)
  | acted {lives : List Life} {n id : Nat} :
      Orderly lives n (some id) → Orderly (lives ++ [.acted id]) n (some id)
  | ended {lives : List Life} {n id : Nat} :
      Orderly lives n (some id) → .ended id ∉ lives → Orderly (lives ++ [.ended id]) n (some id)
  | joined {lives : List Life} {n id : Nat} :
      Orderly lives n (some id) → Orderly (lives ++ [.joined id]) n none

namespace Orderly

variable {lives before after : List Life} {n id : Nat} {current : Option Nat}

theorem unjoined (h : Orderly lives n current) : TreeWatch.unjoined lives = current.toList := by
  induction h with
  | nil => rfl
  | granted call request h ih | acted h ih | ended h hNew ih =>
    simpa [TreeWatch.unjoined] using ih
  | spawned h ih | joined h ih =>
    simp only [TreeWatch.unjoined, List.foldl_append] at ih ⊢
    rw [ih]
    simp

/-- The current session is the one spawned last. -/
theorem newest (h : Orderly lives n (some id)) : id + 1 = n := by
  generalize hCurrent : some id = current at h
  induction h with
  | nil => cases hCurrent
  | granted call request h ih => exact ih hCurrent
  | spawned h ih =>
    cases hCurrent
    rfl
  | acted h ih | ended h hNew ih => exact ih hCurrent
  | joined h ih => cases hCurrent

/-- The record is about sessions that were spawned. -/
theorem lt_of_mem (h : Orderly lives n current) (id : Nat) :
    (.joined id ∈ lives → id < n) ∧ (.ended id ∈ lives → id < n) ∧
      (.acted id ∈ lives → id < n) := by
  induction h with
  | nil => simp
  | granted call request h ih => simpa using ih
  | spawned h ih =>
    simp only [List.mem_append, List.mem_singleton, reduceCtorEq, or_false]
    grind
  | acted h ih | ended h hNew ih | joined h ih =>
    -- the session spoken of is the newest one
    have hNewest := h.newest
    simp only [List.mem_append, List.mem_singleton, reduceCtorEq, or_false, Life.acted.injEq,
      Life.ended.injEq, Life.joined.injEq]
    grind

/-- While no session is current, all of them have been joined; otherwise all but the current one. -/
theorem joined_of_lt (h : Orderly lives n current) (hLt : id < n) :
    .joined id ∈ lives ∨ current = some id := by
  induction h with
  | nil => omega
  | granted call request h ih | acted h ih | ended h hNew ih => simpa using ih hLt
  | @spawned lives n h ih =>
    by_cases hHere : id = n
    · exact Or.inr (congrArg some hHere.symm)
    · left
      simpa using ih (by omega)
  | joined h ih =>
    left
    rcases ih hLt with hJoined | hCurrent
    · exact List.mem_append_left _ hJoined
    · cases hCurrent
      exact List.mem_append_right _ (List.mem_singleton.mpr rfl)

/-- The current session has not been joined. -/
theorem not_joined (h : Orderly lives n (some id)) : .joined id ∉ lives := by
  generalize hCurrent : some id = current at h
  induction h with
  | nil => cases hCurrent
  | granted call request h ih | acted h ih | ended h hNew ih => simpa using ih hCurrent
  | spawned h ih =>
    cases hCurrent
    intro hJoined
    have hLt := (h.lt_of_mem id).1 (by simpa using hJoined)
    omega
  | joined h ih => cases hCurrent

/-- Nothing is done by a session that was joined. -/
theorem rests (h : Orderly lives n current) :
    lives.Pairwise fun earlier later => ∀ id, earlier = .joined id → later ≠ .acted id := by
  induction h with
  | nil => exact .nil
  | granted call request h ih | spawned h ih | ended h hNew ih | joined h ih =>
    rw [List.pairwise_append]
    exact ⟨ih, List.pairwise_singleton _ _, by simp⟩
  | acted h ih =>
    rw [List.pairwise_append]
    refine ⟨ih, List.pairwise_singleton _ _, ?_⟩
    rintro earlier hEarlier later hLater i rfl hActed
    -- the session that makes the step is the current one, and that was not joined
    rw [List.mem_singleton.mp hLater, Life.acted.injEq] at hActed
    exact (hActed ▸ h).not_joined hEarlier

/-- A session is told to end at most once. -/
theorem count_ended (h : Orderly lives n current) (id : Nat) :
    lives.count (.ended id) ≤ 1 := by
  induction h with
  | nil => simp
  | granted call request h ih | spawned h ih | acted h ih | joined h ih => simpa using ih
  | @ended lives n other h hNew ih =>
    by_cases hHere : other = id
    · rw [List.count_append, List.count_eq_zero.mpr (hHere ▸ hNew)]
      simp [hHere]
    · simpa [List.count_append, List.count_singleton, hHere] using ih

/-- A session is joined at most once. -/
theorem count_joined (h : Orderly lives n current) (id : Nat) :
    lives.count (.joined id) ≤ 1 := by
  induction h with
  | nil => simp
  | granted call request h ih | spawned h ih | acted h ih | ended h hNew ih => simpa using ih
  | @joined lives n other h ih =>
    by_cases hHere : other = id
    · rw [List.count_append, List.count_eq_zero.mpr (hHere ▸ h.not_joined)]
      simp [hHere]
    · simpa [List.count_append, List.count_singleton, hHere] using ih

/-- A record in order was in order before its last entry. -/
theorem of_snoc {life : Life} (h : Orderly (lives ++ [life]) n current) :
    ∃ m earlier, Orderly lives m earlier := by
  generalize hWhole : lives ++ [life] = whole at h
  cases h with
  | nil => simp at hWhole
  | granted call request h | spawned h | acted h | ended h hNew | joined h =>
    rw [(List.append_inj' hWhole rfl).1]
    exact ⟨_, _, h⟩

/-- A record in order was so at every moment before. -/
theorem of_append (h : Orderly (before ++ after) n current) :
    ∃ m earlier, Orderly before m earlier := by
  induction after using List.reverseRecOn generalizing n current with
  | nil => exact ⟨n, current, List.append_nil before ▸ h⟩
  | append_singleton rest life ih =>
    rw [← List.append_assoc] at h
    obtain ⟨m, earlier, hEarlier⟩ := h.of_snoc
    exact ih hEarlier

/-- When a session is spawned, all earlier ones have been joined. -/
theorem joined_before {m : Nat} (h : Orderly (before ++ .spawned m :: after) n current)
    (hLt : id < m) : .joined id ∈ before := by
  rw [List.append_cons] at h
  obtain ⟨k, earlier, hSpawned⟩ := h.of_append
  generalize hWhole : before ++ [.spawned m] = whole at hSpawned
  -- the record up to there is in order, and nothing is current before a session is spawned
  cases hSpawned with
  | nil => simp at hWhole
  | spawned hBefore =>
    obtain ⟨rfl, hLast⟩ := List.append_inj' hWhole rfl
    cases hLast
    rcases hBefore.joined_of_lt hLt with hJoined | hNone
    · exact hJoined
    · cases hNone
  | granted call request hBefore | acted hBefore | ended hBefore hNew | joined hBefore =>
    cases (List.append_inj' hWhole rfl).2

end Orderly

namespace Service

/-! ## The line of calls -/

variable {s s₀ after : Service} {moves : List Move} {lives more : List Life} {move : Move}

/-- Nobody is awaited while all calls wait for the lock. -/
theorem awaited?_of_waiting (h : ∀ call ∈ s.calls, ∃ request, call.stage = .waiting request) :
    s.awaited? = none := by
  unfold awaited?
  cases hCalls : s.calls with
  | nil => rfl
  | cons call rest =>
    obtain ⟨request, hStage⟩ := h call (by simp [hCalls])
    simp [hStage]

/-- Of the calls, only the first one does anything, and it waits for a session only while none is
held. -/
structure InLine (s : Service) : Prop where
  waiting : ∀ call ∈ s.calls.tail, ∃ request, call.stage = .waiting request
  apart : s.slot = none ∨ s.awaited? = none

theorem inLine_of_waiting (h : ∀ call ∈ s.calls, ∃ request, call.stage = .waiting request) :
    s.InLine :=
  ⟨fun call hCall => h call (List.mem_of_mem_tail hCall), Or.inr (awaited?_of_waiting h)⟩

theorem inLine_of_idle (hIdle : s.calls = []) : s.InLine :=
  inLine_of_waiting (by simp [hIdle])

/-- The calls behind the first one are all that are left, or that one goes on without a session that
is held. -/
theorem CallEffect.line (h : s.InLine) (hEffect : CallEffect s after) :
    after.calls = s.calls.tail ∨ after.slot = none ∧ after.calls.tail = s.calls.tail := by
  cases hEffect with
  | answered call rest request hCalls hStage hLine hSlot hSessions
  | started call rest id next hCalls hStage hLine hSlot hSessions
  | finished call rest id session hCalls hAwaited hSession hOver hLine hSlot hSessions =>
    exact Or.inl (by rw [hLine, hCalls]; rfl)
  | launched call rest request next fresh hCalls hStage hEmpty hLine hSlot hSessions hFresh
  | ending call rest request id next hCalls hStage hHeld hLine hSlot hSessions =>
    exact Or.inr ⟨hSlot, by rw [hLine, hCalls]; rfl⟩
  | relaunched call rest id session next fresh hCalls hAwaited hSession hOver hLine hSlot hSessions
      hFresh =>
    have hNone : s.slot = none := h.apart.resolve_right (by simp [hAwaited])
    exact Or.inr ⟨hSlot.trans hNone, by rw [hLine, hCalls]; rfl⟩

theorem InLine.call (h : s.InLine) (hEffect : CallEffect s after) : after.InLine := by
  rcases hEffect.line h with hLine | ⟨hSlot, hLine⟩
  · exact inLine_of_waiting (hLine ▸ h.waiting)
  · exact ⟨hLine ▸ h.waiting, Or.inl hSlot⟩

/-- Only calls and the slot matter. -/
theorem InLine.unchanged (h : s.InLine) (hCalls : after.calls = s.calls)
    (hSlot : after.slot = s.slot) : after.InLine := by
  have hAwaited : after.awaited? = s.awaited? := by simp [awaited?, hCalls]
  exact ⟨hCalls ▸ h.waiting, hSlot ▸ hAwaited ▸ h.apart⟩

/-- A call that gets in line waits for the lock. -/
theorem InLine.queued (h : s.InLine) (call : Call)
    (hStage : ∃ request, call.stage = .waiting request) :
    { s with calls := s.calls ++ [call] }.InLine := by
  cases hCalls : s.calls with
  | nil => exact inLine_of_waiting (by simpa using hStage)
  | cons first rest =>
    have hAwaited : { s with calls := first :: rest ++ [call] }.awaited? = s.awaited? := by
      simp [awaited?, hCalls]
    refine ⟨fun other hOther => ?_, hAwaited ▸ h.apart⟩
    rcases List.mem_append.mp hOther with hOther | hOther
    · exact h.waiting other (hCalls ▸ hOther)
    · exact List.mem_singleton.mp hOther ▸ hStage

/-- **Every move** keeps the line. -/
theorem InLine.step (h : s.InLine) (hStep : Step s move more after) : after.InLine := by
  cases hStep with
  | begin request =>
    rcases begin_effect s request with ⟨-, hBegun⟩ | ⟨dirs, e, -, -, hBegun⟩
    · exact hBegun ▸ h.queued ⟨s.freshCall, .waiting request⟩ ⟨request, rfl⟩
    · exact hBegun ▸ h.unchanged rfl rfl
  | call hCall => exact h.call (stepCall_effect hCall)
  | session id hSession =>
    have hEffect := stepSession_effect hSession
    exact h.unchanged hEffect.calls hEffect.slot
  | outside o =>
    obtain ⟨hCalls, hSlot, -⟩ := undergo_effect s o
    exact h.unchanged hCalls hSlot

/-! ## The invariant -/

/-- The session that no call has told to end: the one that is held, or the one that is being
started. -/
def unended? (s : Service) : Option SessionId :=
  s.slot <|>
    match s.calls with
    | ⟨_, .starting id _⟩ :: _ => some id
    | _ => none

/-- One session at a time: of the calls, only the first one does anything; it waits for a session
only while none is held; and a task that is not over is the one of the current session. -/
structure Exclusive (s : Service) (lives : List Life) : Prop where
  orderly : Orderly lives s.sessions.length s.current?
  line : ∀ call ∈ s.calls.tail, ∃ request, call.stage = .waiting request
  apart : s.slot = none ∨ s.awaited? = none
  running : ∀ id session, s.session? id = some session → session.isLive = true →
    s.current? = some id
  failed : ∀ id session e, s.session? id = some session → session.ready = some (.error e) →
    session.isLive = false
  unended : ∀ id, s.unended? = some id → .ended id ∉ lives

theorem Exclusive.inLine (h : s.Exclusive lives) : s.InLine :=
  ⟨h.line, h.apart⟩

theorem exclusive_unused (h : s₀.Unused) : s₀.Exclusive [] where
  orderly := by
    have hCurrent : s₀.current? = none := by simp [current?, awaited?, h.calls, h.slot]
    rw [hCurrent, h.sessions]
    exact .nil
  line := by simp [h.calls]
  apart := Or.inl h.slot
  running id session hSession := by simp [session?, h.sessions] at hSession
  failed id session e hSession := by simp [session?, h.sessions] at hSession
  unended id hUnended := by simp [unended?, h.calls, h.slot] at hUnended

theorem unended?_of_waiting (h : ∀ call ∈ s.calls, ∃ request, call.stage = .waiting request) :
    s.unended? = s.slot := by
  unfold unended?
  cases hCalls : s.calls with
  | nil => simp
  | cons call rest =>
    obtain ⟨request, hStage⟩ := h call (by simp [hCalls])
    obtain ⟨id, stage⟩ := call
    cases hStage
    simp

/-- No task is running. -/
def AllOver (s : Service) : Prop :=
  ∀ id session, s.session? id = some session → session.isLive = false

theorem Exclusive.allOver_of_none (h : s.Exclusive lives) (hNone : s.current? = none) :
    s.AllOver := by
  intro id session hSession
  by_contra hLive
  have hCurrent := h.running id session hSession (Bool.not_eq_false _ ▸ hLive)
  rw [hNone] at hCurrent
  cases hCurrent

/-- When the session awaited is found to be over, no task is running. -/
theorem Exclusive.allOver_of_awaited {id : SessionId} {session : Session}
    (h : s.Exclusive lives) (hAwaited : s.awaited? = some id)
    (hSession : s.session? id = some session)
    (hOver : session.isLive = false ∨ ∃ e, session.ready = some (.error e)) : s.AllOver := by
  intro other task hTask
  by_contra hLive
  have hCurrent := h.running other task hTask (Bool.not_eq_false _ ▸ hLive)
  have hSlot : s.slot = none := h.apart.resolve_right (by simp [hAwaited])
  -- a task that runs would be current, and what is current is awaited
  have hSame : other = id := by simpa [current?, hSlot, hAwaited] using hCurrent.symm
  rw [hSame, hSession] at hTask
  cases hTask
  rcases hOver with hOver | ⟨e, hReady⟩
  · exact hLive hOver
  · exact hLive (h.failed id session e hSession hReady)

/-- A fresh session is the only one that may run, if it is put behind sessions that are over. -/
theorem over_of_launch {fresh : Session} (hOver : s.AllOver)
    (hSessions : after.sessions = s.sessions ++ [fresh])
    (hCurrent : after.current? = some s.sessions.length) (id : Nat) (session : Session)
    (hSession : after.session? id = some session) (hLive : session.isLive = true) :
    after.current? = some id := by
  unfold session? at hSession
  rw [hSessions] at hSession
  by_cases hOld : id < s.sessions.length
  · rw [List.getElem?_append_left hOld] at hSession
    rw [hOver id session hSession] at hLive
    cases hLive
  · -- what runs is the fresh session
    have hLast := (List.getElem?_eq_some_iff.mp hSession).1
    rw [List.length_append, List.length_singleton] at hLast
    rw [hCurrent, show id = s.sessions.length from by omega]

theorem Exclusive.failed_of_launch {fresh : Session} (h : s.Exclusive lives) (hFresh : fresh.Unborn)
    (hSessions : after.sessions = s.sessions ++ [fresh]) (id : Nat) (session : Session)
    (e : WatchError) (hSession : after.session? id = some session)
    (hReady : session.ready = some (.error e)) : session.isLive = false := by
  unfold session? at hSession
  rw [hSessions] at hSession
  by_cases hOld : id < s.sessions.length
  · rw [List.getElem?_append_left hOld] at hSession
    exact h.failed id session e hSession hReady
  · rw [List.getElem?_append_right (by omega), List.getElem?_singleton] at hSession
    split at hSession
    -- a fresh session has not reported anything
    · cases hSession
      rw [hFresh.unready] at hReady
      cases hReady
    · cases hSession

theorem SameOutcomes.session? {id : SessionId} {session : Session}
    (h : SameOutcomes s.sessions after.sessions) (hSession : after.session? id = some session) :
    ∃ old, s.session? id = some old ∧ old.isLive = session.isLive ∧ old.ready = session.ready := by
  have hHere := congrArg (·[id]?) h
  simp only [List.getElem?_map] at hHere
  rw [Service.session?] at hSession
  rw [hSession, Option.map_some, eq_comm, Option.map_eq_some_iff] at hHere
  obtain ⟨old, hOld, hSame⟩ := hHere
  exact ⟨old, hOld, congrArg Prod.fst hSame, congrArg Prod.snd hSame⟩

/-- The invariant is about what calls can tell of the sessions, and about who is current. -/
theorem Exclusive.of_outcomes {record : List Life} (h : s.Exclusive lives)
    (hSame : SameOutcomes s.sessions after.sessions)
    (hCurrent : after.current? = s.current? ∨ s.AllOver)
    (hOrderly : Orderly record after.sessions.length after.current?)
    (hLine : after.InLine)
    (hUnended : ∀ id, after.unended? = some id → .ended id ∉ record) :
    after.Exclusive record where
  orderly := hOrderly
  line := hLine.waiting
  apart := hLine.apart
  running id session hSession hLive := by
    obtain ⟨old, hOld, hSameLive, -⟩ := hSame.session? hSession
    rcases hCurrent with hStays | hOver
    · exact hStays ▸ h.running id old hOld (hSameLive.trans hLive)
    · rw [← hSameLive, hOver id old hOld] at hLive
      cases hLive
  failed id session e hSession hReady := by
    obtain ⟨old, hOld, hSameLive, hSameReady⟩ := hSame.session? hSession
    exact hSameLive ▸ h.failed id old e hOld (hSameReady.trans hReady)
  unended := hUnended

theorem grants_of_awaited {id : SessionId} (hAwaited : s.awaited? = some id) : s.grants = [] := by
  unfold awaited? at hAwaited
  unfold grants
  split
  · next hCalls =>
    rw [hCalls] at hAwaited
    cases hAwaited
  · rfl

/-- The calls behind the first one wait for the lock. -/
theorem Exclusive.rest_waiting {call : Call} {rest : List Call} (h : s.Exclusive lives)
    (hCalls : s.calls = call :: rest) (hLine : after.calls = rest) :
    ∀ call ∈ after.calls, ∃ request, call.stage = .waiting request := by
  simpa [hCalls, hLine] using h.line

theorem current?_of_waiting (h : ∀ call ∈ s.calls, ∃ request, call.stage = .waiting request) :
    s.current? = s.slot := by
  rw [current?, awaited?_of_waiting h]
  simp

/-- The first call leaves, and the tasks go on as they were. -/
theorem Exclusive.left {record : List Life} {call : Call} {rest : List Call}
    (h : s.Exclusive lives) (hCalls : s.calls = call :: rest) (hLine : after.calls = rest)
    (hSessions : after.sessions = s.sessions) (hCurrent : after.slot = s.current? ∨ s.AllOver)
    (hOrderly : Orderly record s.sessions.length after.slot)
    (hUnended : ∀ id, after.slot = some id → .ended id ∉ record) : after.Exclusive record := by
  have hRest := h.rest_waiting hCalls hLine
  have hSlot := current?_of_waiting hRest
  refine h.of_outcomes (hSessions ▸ rfl) (hCurrent.imp_left hSlot.trans) ?_
    (inLine_of_waiting hRest) ?_
  · rw [hSlot, hSessions]
    exact hOrderly
  · intro id hHere
    rw [unended?_of_waiting hRest] at hHere
    exact hUnended id hHere

/-- The first call starts a session, and no other task is running. -/
theorem Exclusive.launched {record : List Life} {call : Call} {rest : List Call}
    {next : AfterStart} {fresh : Session} (h : s.Exclusive lives) (hOver : s.AllOver)
    (hCalls : s.calls = call :: rest)
    (hLine : after.calls = ⟨call.id, .starting s.sessions.length next⟩ :: rest)
    (hSlot : after.slot = none) (hSessions : after.sessions = s.sessions ++ [fresh])
    (hFresh : fresh.Unborn) (hOrderly : Orderly record s.sessions.length none) :
    after.Exclusive (record ++ [.spawned s.sessions.length]) := by
  have hCurrent : after.current? = some s.sessions.length := by
    simp [current?, awaited?, hSlot, hLine]
  refine ⟨?_, ?_, Or.inl hSlot, over_of_launch hOver hSessions hCurrent,
    h.failed_of_launch hFresh hSessions, ?_⟩
  · rw [hCurrent, hSessions, List.length_append, List.length_singleton]
    exact hOrderly.spawned
  · simpa [hCalls, hLine] using h.line
  · -- the record speaks of sessions that were spawned before only
    intro id hUnended hEnded
    have hId : s.sessions.length = id := by simpa [unended?, hSlot, hLine] using hUnended
    have hLt := (hOrderly.lt_of_mem id).2.1 (by simpa using hEnded)
    omega

/-- **Every step of a call** keeps the invariant. -/
theorem Exclusive.call (h : s.Exclusive lives) (hEffect : CallEffect s after) :
    after.Exclusive (lives ++ livesOfCall s after) := by
  have hOrderly := h.orderly
  have hInLine := h.inLine.call hEffect
  cases hEffect with
  | answered call rest request hCalls hStage hLine hSlot hSessions =>
    obtain ⟨number, stage⟩ := call
    cases hStage
    have hAwaited : s.awaited? = none := by simp [awaited?, hCalls]
    have hCurrent : after.slot = s.current? := by simp [current?, hSlot, hAwaited]
    have hLives : livesOfCall s after = [.granted number request] := by
      cases hHeld : s.slot <;>
        simp [livesOfCall, grants, hCalls, hAwaited, hSlot, hSessions, hHeld]
    -- nobody was awaited before the answer, and nobody is after it
    rw [hLives]
    refine h.left hCalls hLine hSessions (Or.inl hCurrent) (hCurrent ▸ hOrderly.granted _ _) ?_
    intro id hHeld
    rw [hSlot] at hHeld
    simpa using h.unended id (by simp [unended?, hHeld])
  | launched call rest request next fresh hCalls hStage hEmpty hLine hSlot hSessions hFresh =>
    obtain ⟨number, stage⟩ := call
    cases hStage
    have hAwaited : s.awaited? = none := by simp [awaited?, hCalls]
    have hNone : s.current? = none := by simp [current?, hEmpty, hAwaited]
    rw [hNone] at hOrderly
    have hLives : livesOfCall s after =
        [.granted number request] ++ [.spawned s.sessions.length] := by
      simp [livesOfCall, grants, hCalls, hAwaited, hEmpty, hSessions]
    -- nothing is held and nobody is awaited, so no task is running
    rw [hLives, ← List.append_assoc]
    exact h.launched (h.allOver_of_none hNone) hCalls hLine hSlot hSessions hFresh
      (hOrderly.granted _ _)
  | ending call rest request id next hCalls hStage hHeld hLine hSlot hSessions =>
    obtain ⟨number, stage⟩ := call
    cases hStage
    have hAwaited : s.awaited? = none := by simp [awaited?, hCalls]
    have hCurrent : s.current? = some id := by simp [current?, hHeld]
    have hAfter : after.current? = some id := by simp [current?, awaited?, hSlot, hLine]
    rw [hCurrent] at hOrderly
    have hLives : livesOfCall s after = [.granted number request] ++ [.ended id] := by
      simp [livesOfCall, grants, hCalls, hAwaited, hHeld, hSlot, hSessions]
    -- the session stays current: it was held before, and is awaited now
    rw [hLives, ← List.append_assoc]
    refine h.of_outcomes (hSessions ▸ sameOutcomes_modify fun _ => ⟨rfl, rfl⟩)
      (Or.inl (hAfter.trans hCurrent.symm)) ?_ hInLine ?_
    · rw [hAfter, hSessions, List.length_modify]
      refine (hOrderly.granted _ _).ended ?_
      simpa using h.unended id (by simp [unended?, hHeld])
    · intro other hUnended
      simp [unended?, hSlot, hLine] at hUnended
  | started call rest id next hCalls hStage hLine hSlot hSessions =>
    obtain ⟨number, stage⟩ := call
    cases hStage
    have hAwaited : s.awaited? = some id := by simp [awaited?, hCalls]
    have hNone : s.slot = none := h.apart.resolve_right (by simp [hAwaited])
    have hCurrent : after.slot = s.current? := by simp [current?, hSlot, hNone, hAwaited]
    have hLives : livesOfCall s after = [] := by
      simp [livesOfCall, grants, hCalls, hAwaited, hNone, hSlot, hSessions]
    -- the session stays current: it was awaited before, and is held now
    rw [hLives, List.append_nil]
    refine h.left hCalls hLine hSessions (Or.inl hCurrent) (hCurrent ▸ hOrderly) ?_
    intro other hHeld
    rw [hSlot] at hHeld
    exact h.unended other (by simpa [unended?, hNone, hCalls] using hHeld)
  | finished call rest id session hCalls hAwaited hSession hOver hLine hSlot hSessions =>
    have hNone : s.slot = none := h.apart.resolve_right (by simp [hAwaited])
    have hCurrent : s.current? = some id := by simp [current?, hNone, hAwaited]
    rw [hCurrent] at hOrderly
    have hLives : livesOfCall s after = [.joined id] := by
      simp [livesOfCall, grants_of_awaited hAwaited, hAwaited, hNone, hSlot, hSessions]
    have hEmpty : after.slot = none := hSlot.trans hNone
    -- what was awaited was the only task that could have been running, and it is over
    rw [hLives]
    refine h.left hCalls hLine hSessions (Or.inr (h.allOver_of_awaited hAwaited hSession hOver))
      (hEmpty ▸ hOrderly.joined) ?_
    intro other hHeld
    cases hEmpty.symm.trans hHeld
  | relaunched call rest id session next fresh hCalls hAwaited hSession hOver hLine hSlot hSessions
      hFresh =>
    have hNone : s.slot = none := h.apart.resolve_right (by simp [hAwaited])
    have hCurrent : s.current? = some id := by simp [current?, hNone, hAwaited]
    rw [hCurrent] at hOrderly
    have hLives : livesOfCall s after = [.joined id] ++ [.spawned s.sessions.length] := by
      simp [livesOfCall, grants_of_awaited hAwaited, hAwaited, hNone, hSlot, hSessions]
    -- the session awaited is over, so the fresh one is alone
    rw [hLives, ← List.append_assoc]
    exact h.launched (h.allOver_of_awaited hAwaited hSession hOver) hCalls hLine
      (hSlot.trans hNone) hSessions hFresh hOrderly.joined

/-- **Every step of a session** keeps the invariant. -/
theorem Exclusive.session {id : SessionId} (h : s.Exclusive lives)
    (hEffect : SessionEffect s id after) : after.Exclusive (lives ++ [.acted id]) := by
  obtain ⟨⟨session, hSession, hLive⟩, hCalls, hSlot, f, hHonest, hSessions⟩ := hEffect
  have hCurrent : s.current? = some id := h.running id session hSession hLive
  have hAwaited : after.awaited? = s.awaited? := by simp [awaited?, hCalls]
  have hStays : after.current? = s.current? := by simp [current?, hSlot, hAwaited]
  have hUnended : after.unended? = s.unended? := by simp [unended?, hSlot, hCalls]
  -- every session but one is as it was
  have hOld : ∀ other task, after.session? other = some task →
      ∃ old, s.session? other = some old ∧
        (id = other ∧ task = f old ∨ id ≠ other ∧ task = old) := by
    intro other task hTask
    rw [session?, hSessions, List.getElem?_modify] at hTask
    obtain ⟨old, hOld, rfl⟩ := Option.map_eq_some_iff.mp hTask
    refine ⟨old, hOld, ?_⟩
    by_cases hHere : id = other
    · simp [hHere]
    · simp [hHere]
  have hOrderly := h.orderly
  rw [hCurrent] at hOrderly
  refine ⟨?_, hCalls ▸ h.line, hSlot ▸ hAwaited ▸ h.apart, ?_, ?_, ?_⟩
  · rw [hStays, hCurrent, hSessions, List.length_modify]
    exact hOrderly.acted
  · intro other task hTask hTaskLive
    rw [hStays]
    obtain ⟨old, hOld, ⟨rfl, -⟩ | ⟨-, rfl⟩⟩ := hOld other task hTask
    · exact hCurrent
    · exact h.running other task hOld hTaskLive
  · intro other task e hTask hReady
    obtain ⟨old, hOld, ⟨rfl, rfl⟩ | ⟨-, rfl⟩⟩ := hOld other task hTask
    -- an error is reported at the end only, and the session was not over before
    · rcases hHonest old e hReady with hOver | hBefore
      · exact hOver
      · rw [hSession] at hOld
        cases hOld
        rw [h.failed id session e hSession hBefore] at hLive
        cases hLive
    · exact h.failed other task e hOld hReady
  · intro other hHere
    simpa using h.unended other (hUnended ▸ hHere)

/-- What the world does keeps the invariant, as long as calls and slot stay. -/
theorem Exclusive.unchanged (h : s.Exclusive lives) (hCalls : after.calls = s.calls)
    (hSlot : after.slot = s.slot) (hSame : SameOutcomes s.sessions after.sessions) :
    after.Exclusive lives := by
  have hAwaited : after.awaited? = s.awaited? := by simp [awaited?, hCalls]
  have hCurrent : after.current? = s.current? := by simp [current?, hSlot, hAwaited]
  have hUnended : after.unended? = s.unended? := by simp [unended?, hSlot, hCalls]
  have hLength : after.sessions.length = s.sessions.length := by
    simpa using congrArg List.length hSame
  exact h.of_outcomes hSame (Or.inl hCurrent) (hLength ▸ hCurrent ▸ h.orderly)
    (h.inLine.unchanged hCalls hSlot) (hUnended ▸ h.unended)

/-- A call that gets in line keeps the invariant. -/
theorem Exclusive.queued (h : s.Exclusive lives) (call : Call)
    (hStage : ∃ request, call.stage = .waiting request) :
    { s with calls := s.calls ++ [call] }.Exclusive lives := by
  -- if it is the first one, it waits for the lock like any other; if not, the first one stays
  obtain ⟨hAwaited, hUnended⟩ : { s with calls := s.calls ++ [call] }.awaited? = s.awaited? ∧
      { s with calls := s.calls ++ [call] }.unended? = s.unended? := by
    obtain ⟨request, hStage⟩ := hStage
    obtain ⟨number, stage⟩ := call
    cases hStage
    cases hCalls : s.calls with
    | nil => simp [awaited?, unended?, hCalls]
    | cons first rest =>
      obtain ⟨number, stage⟩ := first
      cases stage <;> simp [awaited?, unended?, hCalls]
  have hCurrent : { s with calls := s.calls ++ [call] }.current? = s.current? :=
    congrArg (s.slot <|> ·) hAwaited
  exact h.of_outcomes rfl (Or.inl hCurrent) (hCurrent ▸ h.orderly) (h.inLine.queued call hStage)
    (hUnended ▸ h.unended)

/-- **Every move** keeps the invariant. -/
theorem Exclusive.step (h : s.Exclusive lives) (hStep : Step s move more after) :
    after.Exclusive (lives ++ more) := by
  cases hStep with
  | begin request =>
    rw [List.append_nil]
    rcases begin_effect s request with ⟨-, hBegun⟩ | ⟨dirs, e, -, -, hBegun⟩
    · exact hBegun ▸ h.queued ⟨s.freshCall, .waiting request⟩ ⟨request, rfl⟩
    · exact hBegun ▸ h.unchanged rfl rfl rfl
  | call hCall => exact h.call (stepCall_effect hCall)
  | session id hSession => exact h.session (stepSession_effect hSession)
  | outside o =>
    obtain ⟨hCalls, hSlot, hSame⟩ := undergo_effect s o
    rw [List.append_nil]
    exact h.unchanged hCalls hSlot hSame

/-! ## Runs -/

/-- **Every run** keeps the invariant. -/
theorem Steps.exclusive (run : Steps s₀ moves lives s) (hUnused : s₀.Unused) :
    s.Exclusive lives := by
  induction run with
  | nil => exact exclusive_unused hUnused
  | snoc run hStep ih => exact ih.step hStep

end Service

end TreeWatch
