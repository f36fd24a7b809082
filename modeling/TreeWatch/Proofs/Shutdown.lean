import TreeWatch.Proofs.Accounting
import TreeWatch.Proofs.Progress

/-!
# Shutdown

A call that stops a session tells its loop so and waits for its task. To the loop, the order to
stop comes before messages: it flushes what is dirty and is over. So all that the loop has received
by then is bumped before the call goes on, and what still waits in the inbox is dropped, whether it
was delivered before the call or after it.

Main results:
  * `exists_call_of_received`: in a run that returned, what was received is bumped afterwards
  * `FairRun.joined`: in a fair run a session that was told to stop is joined
  * `stop_flushes_received`: what all this means to a call that stops a session
  * `queued_change_is_dropped`: a change that waits in the inbox when its session is told to stop
-/

namespace TreeWatch

variable {roots : List Path} {grace : UInt64} {rounds : List Round} {fate : Fate}

/-! ## What a loop has received -/

/-- In a run that has not crashed no round has. -/
theorem Run.alive (h : Run roots grace rounds fate) :
    fate ≠ .crashed → ∀ r ∈ rounds, r.turn.loop.coalescer.crashed = false := by
  induction h with
  | start => simp
  | wait _ _ ih => exact fun _ => ih (by simp)
  | turn r _ ih =>
    intro hFate other hOther
    rcases List.mem_append.mp hOther with hOld | hHere
    · exact ih (by simp) other hOld
    · rw [List.mem_singleton.mp hHere]
      by_contra hCrash
      exact hFate (by rw [Round.fate, if_pos (by simpa using hCrash)])

/-- A round marks the root of each change that counts of the event it receives. -/
theorem Round.mem_marks {r : Round} {event : Event} {change : Change} {root : Path}
    (hReceived : r.turn.action = .received (.event event))
    (hChange : change ∈ (classify r.disk event).1)
    (hCounts : Coalescer.Counts r.loop.coalescer.roots r.disk change root)
    (hAlive : r.turn.loop.coalescer.crashed = false) : root ∈ r.marks := by
  rw [Round.marks, hReceived]
  refine Coalescer.mem_marks hChange hCounts ?_
  cases r.did with
  | event other rest hGoing hInbox hAction hLoop =>
    rw [hReceived] at hAction
    cases hAction
    rw [hLoop] at hAlive
    exact hAlive
  | failure error rest hGoing hInbox hAction hLoop => rw [hReceived] at hAction; cases hAction
  | expired hGoing hInbox hOpen hDue hAction hLoop => rw [hReceived] at hAction; cases hAction
  | leftClean hStop hIdle hAction hLoop => rw [hReceived] at hAction; cases hAction
  | leftFlushing hStop hArmed hAction hLoop => rw [hReceived] at hAction; cases hAction

/-- In a run that returned, every change that was received and counts is followed by a bump. -/
theorem exists_call_of_received (h : Run roots grace rounds .returned) {before after : List Round}
    {r : Round} {event : Event} {change : Change} {root : Path}
    (hEq : rounds = before ++ r :: after)
    (hReceived : r.turn.action = .received (.event event))
    (hChange : change ∈ (classify r.disk event).1)
    (hCounts : Coalescer.Counts roots r.disk change root) : ∃ s ∈ after, root ∈ s.calls := by
  have hAlive := h.alive (by simp) r (by simp [hEq])
  have hRoots : r.loop.coalescer.roots = roots := (hEq ▸ h).settled_at.roots_eq
  exact exists_call_of_mem_marks h hEq (Round.mem_marks hReceived hChange (hRoots ▸ hCounts) hAlive)

/-- Nothing stays dirty over the rounds: what is dirty at first is bumped, and so is what a round
marks, in a later one. -/
structure Flushed (dirty : List Path) (rounds : List Round) : Prop where
  dirty : ∀ root ∈ dirty, ∃ r ∈ rounds, root ∈ r.calls
  marked : ∀ before r after, rounds = before ++ r :: after →
    ∀ root ∈ r.marks, ∃ later ∈ after, root ∈ later.calls

/-- The rest of a run that returned flushes what was dirty before it. -/
theorem Run.flushed {before after : List Round} (h : Run roots grace (before ++ after) .returned)
    {l : Loop} (hBefore : Run roots grace before (.going l)) :
    Flushed l.coalescer.dirty after where
  dirty root hRoot := by
    rw [(hBefore.settled rfl).dirty_eq, List.mem_eraseDups] at hRoot
    rcases exists_flush_of_mem_current after h hRoot with hLeft | ⟨mid, r, rest, rfl, -, -, hCall⟩
    · rw [h.current_of_returned] at hLeft
      cases hLeft
    · exact ⟨r, by simp, hCall⟩
  marked earlier r later hEq root hRoot :=
    exists_call_of_mem_marks h (by rw [hEq, List.append_assoc]) hRoot

/-- The roots of a session that no flush has covered. -/
def Session.dirty (session : Session) : List Path :=
  match session.phase with
  | .watching c => c.dirty
  | _ => []

/-- A session that became ready and is over in order has flushed what was dirty at any time before.
-/
theorem Session.Watched.flushed {old session : Session} {before after : List Round}
    {engine : Option Engine} (hBefore : old.Watched before)
    (h : session.Watched (before ++ after)) (hRoots : session.roots = old.roots)
    (hGrace : session.grace = old.grace) (hPhase : session.phase = .finished engine none)
    (hReady : session.ready = some (.ok ())) : Flushed old.dirty after := by
  have hRun := h.run_of_returned hPhase hReady
  unfold Session.dirty
  split
  · next c hWatching =>
    rw [hRoots, hGrace] at hRun
    exact hRun.flushed (Service.run_of_watching hBefore
      (Session.loop?_eq_some.mpr ⟨c, hWatching, rfl⟩))
  · refine ⟨fun root hRoot => (by cases hRoot), fun earlier r later hEq root hRoot => ?_⟩
    exact exists_call_of_mem_marks hRun (by rw [hEq, List.append_assoc]) hRoot

namespace Service

variable {s s₀ t u after : Service} {moves before later : List Move} {lives more last : List Life}
  {move : Move} {id number : Nat} {a session : Session} {line : List Call}
  {next : Option Replacement}

/-! ## Telling a session to stop -/

theorem mem_livesOfCall_ended :
    .ended id ∈ livesOfCall s after ↔ s.slot = some id ∧ after.slot ≠ some id := by
  unfold livesOfCall grants
  split <;> split <;> simp [Option.mem_toList]

theorem mem_livesOfCall_joined :
    .joined id ∈ livesOfCall s after ↔ s.awaited? = some id ∧ after.slot ≠ some id := by
  unfold livesOfCall grants
  split <;> split <;> simp [Option.mem_toList]

/-- A call that has told a session to stop waits for its task. -/
theorem joining_of_ended (hTidy : s.Tidy) (hExclusive : s.Exclusive lives)
    (hStep : Step s .call more after) (hEnded : .ended id ∈ more) :
    after.slot = none ∧ (∃ number next line, after.calls = ⟨number, .joining id next⟩ :: line) ∧
      ∃ session, after.session? id = some session ∧ session.ready = some (.ok ()) ∧
        session.cancelled = true := by
  have hAfter := hTidy.step hStep
  cases hStep with
  | call hCall =>
    obtain ⟨hHeld, hGone⟩ := mem_livesOfCall_ended.mp hEnded
    obtain ⟨first, rest, hCalls⟩ := exists_call hCall
    cases stepCall_cases hCalls hCall with
    | refused request e log hStage hWhy hEq =>
      subst hEq
      exact absurd hHeld hGone
    | launched dirs grace log hStage hFree hDirs hEq => cases hFree.symm.trans hHeld
    | ending request other next log hStage hSlot hEnds hEq =>
      obtain rfl : other = id := Option.some.inj (hSlot.symm.trans hHeld)
      subst hEq
      obtain ⟨session, hFound⟩ :=
        (hAfter.expects ⟨first.id, .joining other next⟩ List.mem_cons_self).joining other next rfl
      exact ⟨rfl, ⟨first.id, next, rest, rfl⟩, session, hFound⟩
    | started other next session log hStage hSession hReady hEq =>
      -- no session is held while a call waits for one
      have hAwaited : s.awaited? = some other := by rw [awaited?_head hCalls, hStage]; rfl
      rcases hExclusive.apart with hFree | hIdle
      · cases hFree.symm.trans hHeld
      · cases hIdle.symm.trans hAwaited
    | ended other session result log hAwaited hSession hVerdict hEq =>
      subst hEq
      exact absurd hHeld hGone
    | another other session dirs grace next log hAwaited hSession hDirs hAnother hEq =>
      subst hEq
      exact absurd hHeld hGone

/-- A loop that was told to stop makes its last round. -/
theorem leaves_of_cancelled (run : Steps s moves lives t) (hTidy : s.Tidy)
    (hSession : s.session? id = some a) (hCancelled : a.cancelled = true) :
    ∀ r ∈ s.rounds id moves, r.leaves = true := by
  -- the order to stop is never taken back, so every later round finds it
  induction run with
  | nil => simp [rounds]
  | @snoc moves lives more move s' after run hStep ih =>
    rw [run.rounds_snoc]
    intro r hr
    rcases List.mem_append.mp hr with hOld | hHere
    · exact ih r hOld
    · obtain ⟨session, hThere, hEvolves⟩ := run.evolves hTidy hSession
      cases move with
      | begin request | call | outside o => simp [roundIn?] at hHere
      | session other =>
        rw [roundIn?_session, Option.mem_toList] at hHere
        split at hHere
        · next hSame =>
          subst hSame
          obtain ⟨c, -, hLoop⟩ := watching_of_round hThere hHere
          refine Round.leaves_of_cancelled ?_
          rw [hLoop]
          exact hEvolves.cancelled hCancelled
        · cases hHere

/-- Of rounds that all leave the loop there is one at most. -/
theorem length_le_one_of_leaves {before after : List Round}
    (h : Run roots grace (before ++ after) fate) (hLeaves : ∀ r ∈ after, r.leaves = true) :
    after.length ≤ 1 := by
  match after, h, hLeaves with
  | [], _, _ => exact Nat.zero_le 1
  | [r], _, _ => exact Nat.le_refl 1
  | r :: r' :: rest, h, hLeaves =>
    cases h.stays_before.symm.trans (hLeaves r List.mem_cons_self)

/-! ## Joining its task -/

/-- What a call finds when it joins the task of a session that it told to stop, and what that makes
of its answer. -/
inductive Joins (s : Service) (session : Session) (number : Nat) (next : Option Replacement)
    (after : Service) : Prop where
  | ended (engine : Option Engine) (hPhase : session.phase = .finished engine none)
      (hAnswer : next = none → after.answers = (number, .ok ()) :: s.answers)
  | crashed (engine : Option Engine) (reason : String)
      (hPhase : session.phase = .finished engine (some reason))
      (hAnswer : after.answers =
        (number, .error (crashReport session.task reason)) :: s.answers)

/-- A session that became ready has not failed to start. -/
theorem startError?_of_ready (hReady : session.ready = some (.ok ())) :
    session.startError? = none := by
  rw [Session.startError?, hReady]

/-- A session that became ready is joined only by a call that told it to stop. -/
theorem joins_of_joined (hSession : s.session? id = some session)
    (hReady : session.ready = some (.ok ())) (hStep : Step s .call more after)
    (hJoined : .joined id ∈ more) : ∃ number next line,
      s.calls = ⟨number, .joining id next⟩ :: line ∧ s.Joins session number next after := by
  cases hStep with
  | call hCall =>
    obtain ⟨hAwaited, hGone⟩ := mem_livesOfCall_joined.mp hJoined
    obtain ⟨first, rest, hCalls⟩ := exists_call hCall
    rw [awaited?_head hCalls] at hAwaited
    obtain ⟨number, stage⟩ := first
    have hNoError := startError?_of_ready hReady
    -- a call that waits for the session finds it over, and in order when it started
    cases stepCall_cases hCalls hCall with
    | refused request e log hStage hWhy hEq => rw [hStage] at hAwaited; cases hAwaited
    | launched dirs grace log hStage hFree hDirs hEq => rw [hStage] at hAwaited; cases hAwaited
    | ending request other next log hStage hSlot hEnds hEq =>
      rw [hStage] at hAwaited
      cases hAwaited
    | started other next session' log hStage hThere hOk hEq =>
      rw [hStage] at hAwaited
      cases hAwaited
      exact absurd rfl (hEq ▸ hGone)
    | ended other session' result log hHere hThere hVerdict hEq =>
      obtain rfl : other = id := Option.some.inj (hHere.symm.trans hAwaited)
      obtain rfl : session' = session := Option.some.inj (hThere.symm.trans hSession)
      subst hEq
      cases hVerdict with
      | stopped other engine hPhase =>
        cases hAwaited
        exact ⟨number, none, rest, hCalls, .ended engine hPhase fun _ => rfl⟩
      | aborted other engine reason next hPhase =>
        cases hAwaited
        exact ⟨number, next, rest, hCalls, .crashed engine reason hPhase rfl⟩
      | irreplaceable other engine r hPhase hDirs =>
        cases hAwaited
        exact ⟨number, some r, rest, hCalls, .ended engine hPhase fun hNone => by cases hNone⟩
      | unstarted other e hError | unrestored other e first hError
      | unrestorable other e previous grace hError hDirs => cases hNoError.symm.trans hError
    | another other session' dirs grace next log hHere hThere hDirs hAnother hEq =>
      obtain rfl : other = id := Option.some.inj (hHere.symm.trans hAwaited)
      obtain rfl : session' = session := Option.some.inj (hThere.symm.trans hSession)
      cases hAnother with
      | replacing other engine r hPhase =>
        cases hAwaited
        exact ⟨number, some r, rest, hCalls, .ended engine hPhase fun hNone => by cases hNone⟩
      | restoring other e previous grace hError => cases hNoError.symm.trans hError

/-- A call that waits for a session to end joins it with its next step. -/
theorem joined_or_joining (hCalls : s.calls = ⟨number, .joining id next⟩ :: line)
    (hSlot : s.slot = none) (hStep : Step s move more after) :
    move = .call ∧ .joined id ∈ more ∨
      move ≠ .call ∧ after.slot = none ∧
        ∃ line, after.calls = ⟨number, .joining id next⟩ :: line := by
  cases hStep with
  | begin request =>
    refine Or.inr ⟨by simp, ?_⟩
    rcases begin_effect s request with ⟨-, hBegun⟩ | ⟨dirs, e, -, -, hBegun⟩
    · exact hBegun ▸ ⟨hSlot, _, by rw [hCalls]; rfl⟩
    · exact hBegun ▸ ⟨hSlot, line, hCalls⟩
  | call hCall =>
    refine Or.inl ⟨rfl, mem_livesOfCall_joined.mpr ⟨awaited?_head hCalls, ?_⟩⟩
    cases stepCall_cases hCalls hCall with
    | refused request e log hStage hWhy hEq => cases hStage
    | launched dirs grace log hStage hFree hDirs hEq => cases hStage
    | ending request other next log hStage hHeld hEnds hEq => cases hStage
    | started other next session log hStage hSession hReady hEq => cases hStage
    | ended other session result log hAwaited hSession hVerdict hEq =>
      subst hEq
      show s.slot ≠ some id
      simp [hSlot]
    | another other session dirs grace next log hAwaited hSession hDirs hAnother hEq =>
      subst hEq
      show s.slot ≠ some id
      simp [hSlot]
  | session other hTask =>
    refine Or.inr ⟨by simp, ?_⟩
    obtain ⟨session, b, hSession, -, hApart⟩ := stepSession_cases hTask
    exact ⟨hApart.slot.trans hSlot, line, hApart.calls.trans hCalls⟩
  | outside o =>
    have hUndergone := undergo_undergone s o
    exact Or.inr ⟨by simp, hUndergone.slot.trans hSlot, line, hUndergone.calls.trans hCalls⟩

/-- **In a fair run** a session that was told to stop is joined. -/
theorem FairRun.joined (run : FairRun s₀) (hTidy : s₀.Tidy) (hLine : s₀.InLine)
    (hCalls : s₀.calls = ⟨number, .joining id next⟩ :: line) (hSlot : s₀.slot = none) :
    ∃ n last, Step (run.state n) .call last (run.state (n + 1)) ∧ .joined id ∈ last := by
  by_contra hNever
  -- as long as it is not joined, the call waits for it
  have hWaits (n : Nat) : (run.state n).slot = none ∧
      ∃ line, (run.state n).calls = ⟨number, .joining id next⟩ :: line := by
    induction n with
    | zero =>
      rw [run.first]
      exact ⟨hSlot, line, hCalls⟩
    | succ n ih =>
      obtain ⟨hSlot, line, hCalls⟩ := ih
      obtain ⟨more, hStep⟩ := run.step n
      rcases joined_or_joining hCalls hSlot hStep with ⟨hMove, hJoined⟩ | ⟨-, hStill⟩
      · exact absurd ⟨n, more, hMove ▸ hStep, hJoined⟩ hNever
      · exact hStill
  -- but it goes on some time, and joins it then
  have hNumber : number ∈ s₀.calls.map Call.id := by simp [hCalls]
  obtain ⟨n, hMove, -⟩ := run.answered hTidy hLine hNumber
  obtain ⟨more, hStep⟩ := run.step n
  obtain ⟨hSlot, line, hCalls⟩ := hWaits n
  rcases joined_or_joining hCalls hSlot hStep with ⟨-, hJoined⟩ | ⟨hNot, -⟩
  · exact hNever ⟨n, more, hMove ▸ hStep, hJoined⟩
  · exact hNot hMove

/-! ## Main result -/

/--
**Stopping a session.** In every run of a fresh controller in which a call has told a session to
stop, however calls, sessions and the world go on from then:

* the loop of the session makes one more round at most, in which it leaves; it receives nothing any
  more;
* whenever the task of the session is joined, it is over. If it crashed, that is the answer. If not,
  a call that only stops is answered that it has, and each change that counts, of each event that
  the loop received before it was told to stop, has been followed by a bump of its root;
* in a fair run the task is joined.
-/
theorem stop_flushes_received {stopping : Service} {others : List Life} (hFresh : s₀.Fresh)
    (run : Steps s₀ before lives s) (hStop : Step s .call more stopping) (hEnded : .ended id ∈ more)
    (rest : Steps stopping later others t) :
    ((stopping.rounds id later).length ≤ 1 ∧ ∀ r ∈ stopping.rounds id later, r.leaves = true) ∧
    (∀ last u, Step t .call last u → .joined id ∈ last →
      ∃ session number next line, t.session? id = some session ∧
        t.calls = ⟨number, .joining id next⟩ :: line ∧ t.Joins session number next u ∧
        ∀ engine, session.phase = .finished engine none →
          ∀ earlier r following event change root,
            s₀.rounds id before = earlier ++ r :: following →
            r.turn.action = .received (.event event) → change ∈ (classify r.disk event).1 →
            Coalescer.Counts session.roots r.disk change root →
            ∃ r' ∈ following ++ stopping.rounds id later, root ∈ r'.calls) ∧
    ∀ run : FairRun stopping,
      ∃ n last, Step (run.state n) .call last (run.state (n + 1)) ∧ .joined id ∈ last := by
  have hBefore := run.snoc hStop
  have hTidy := hBefore.tidy hFresh.tidy
  obtain ⟨hSlot, ⟨number, next, line, hCalls⟩, a, ha, hReady, hCancelled⟩ :=
    joining_of_ended (run.tidy hFresh.tidy) (run.exclusive hFresh.toUnused) hStop hEnded
  obtain ⟨session, hSession, hEvolves⟩ := rest.evolves hTidy ha
  have hOk : session.ready = some (.ok ()) := (hEvolves.ready (by simp [hReady])).trans hReady
  -- the rounds of the session are those before the call and those after it
  have hRounds : s₀.rounds id (before ++ [.call] ++ later) =
      s₀.rounds id before ++ stopping.rounds id later := by
    rw [rounds_append, hBefore.foldl_perform, run.rounds_snoc]
    simp [roundIn?]
  have hWatched : session.Watched (s₀.rounds id (before ++ [.call] ++ later)) :=
    ((hBefore.append rest).watched hFresh id).2 session hSession
  rw [hRounds] at hWatched
  have hLeaves := leaves_of_cancelled rest hTidy ha hCancelled
  refine ⟨⟨?_, hLeaves⟩, ?_, ?_⟩
  · cases hWatched with
    | settingUp hPhase hNone => simp [(List.append_eq_nil_iff.mp hNone).2]
    | failed engine crash hPhase hNot hNone => exact absurd hOk hNot
    | going l hLoop hRun => exact length_le_one_of_leaves hRun hLeaves
    | returned engine hPhase hOk hRun => exact length_le_one_of_leaves hRun hLeaves
    | crashed engine reason hPhase hOk hRun => exact length_le_one_of_leaves hRun hLeaves
  · intro last u hStep hJoined
    obtain ⟨number, next, line, hCalls, hJoins⟩ := joins_of_joined hSession hOk hStep hJoined
    refine ⟨session, number, next, line, hSession, hCalls, hJoins, ?_⟩
    intro engine hOver earlier r following event change root hEq hReceived hChange hCounts
    have hRun := hWatched.run_of_returned hOver hOk
    rw [hEq, List.append_assoc, List.cons_append] at hRun
    exact exists_call_of_received hRun rfl hReceived hChange hCounts
  · intro run
    exact run.joined hTidy (hBefore.exclusive hFresh.toUnused).inLine hCalls hSlot

/-- A controller over a disk with one directory. -/
def atHome : Service :=
  { disk := ⟨[([.text "a"], .dir)], []⟩ }

/-- A session over the directory is started, and told of a write. -/
def delivery : List Move :=
  [.begin (.start [⟨"a"⟩] 5), .call, .session 0, .session 0, .call,
    .outside (.deliver (Sample.write "a/x"))]

/-- If the loop receives the write before the session is told to stop, the root is bumped before
the task is joined. -/
theorem received_change_is_flushed :
    atHome.Fresh ∧ ∃ s stopping t after : Service,
      Steps atHome (delivery ++ [.session 0, .begin .stop])
        [.granted 0 (.start [⟨"a"⟩] 5), .spawned 0, .acted 0, .acted 0, .acted 0] s ∧
      Step s .call [.granted 1 .stop, .ended 0] stopping ∧
      Steps stopping [.session 0] [.acted 0] t ∧
      Step t .call [.joined 0] after ∧ after.answers = [(1, .ok ()), (0, .ok ())] ∧
      ∃ r ∈ stopping.rounds 0 [.session 0], ⟨"a"⟩ ∈ r.calls := by
  let moves : List Move := delivery ++ [.session 0, .begin .stop]
  let s := moves.foldl perform atHome
  let stopping := s.perform .call
  let t := stopping.perform (.session 0)
  have hFresh : atHome.Fresh := ⟨⟨rfl, rfl, rfl⟩, rfl, rfl⟩
  have hRun : Steps atHome moves (atHome.record moves) s :=
    steps_of_possible (by decide +kernel)
  have hStop : Step s .call [.granted 1 .stop, .ended 0] stopping :=
    step_perform (by decide +kernel)
  have hLeft : Steps stopping [.session 0] [.acted 0] t := steps_of_possible (by decide +kernel)
  have hJoined : Step t .call [.joined 0] (t.perform .call) :=
    step_perform (by decide +kernel)
  have hRecord : atHome.record moves =
      [.granted 0 (.start [⟨"a"⟩] 5), .spawned 0, .acted 0, .acted 0, .acted 0] := by
    decide +kernel
  refine ⟨hFresh, s, stopping, t, _, hRecord ▸ hRun, hStop, hLeft, hJoined, rfl, ?_⟩
  have hEnded : Life.ended 0 ∈ [.granted 1 .stop, .ended 0] := by simp
  obtain ⟨-, hJoins, -⟩ := stop_flushes_received hFresh hRun hStop hEnded hLeft
  obtain ⟨session, -, -, -, hSession, -, -, hFlushed⟩ := hJoins _ _ hJoined (by simp)
  cases hSession
  -- the only round before the order to stop is the one that receives the write
  obtain ⟨r, hRounds, hReceived⟩ : ∃ r, atHome.rounds 0 moves = [] ++ [r] ∧
      r.turn.action = .received (Sample.write "a/x") := ⟨_, rfl, rfl⟩
  exact hFlushed _ rfl [] r [] _ ⟨⟨"a/x"⟩, .modified⟩ ⟨"a"⟩ hRounds hReceived
    (List.mem_singleton.mpr rfl) ⟨rfl, rfl, by simp, rfl⟩

/-- **What waits is dropped**: if the write still waits in the inbox when the session is told to
stop, the stop is answered that it has, nothing was bumped, and the disk is as it was. -/
theorem queued_change_is_dropped :
    atHome.Fresh ∧ ∃ s after : Service,
      Steps atHome delivery [.granted 0 (.start [⟨"a"⟩] 5), .spawned 0, .acted 0, .acted 0] s ∧
      (s.session? 0).map Session.inbox = some [Sample.write "a/x"] ∧
      Coalescer.Counts [⟨"a"⟩] s.disk ⟨⟨"a/x"⟩, .modified⟩ ⟨"a"⟩ ∧
      Steps s [.begin .stop, .call, .session 0, .call]
        [.granted 1 .stop, .ended 0, .acted 0, .joined 0] after ∧
      after.answers = [(1, .ok ()), (0, .ok ())] ∧
      (atHome.rounds 0 (delivery ++ [.begin .stop, .call, .session 0, .call])).flatMap
        Round.calls = [] ∧
      after.disk = atHome.disk := by
  let s := delivery.foldl perform atHome
  let moves : List Move := [.begin .stop, .call, .session 0, .call]
  have hRun : Steps atHome delivery (atHome.record delivery) s :=
    steps_of_possible (by decide +kernel)
  have hStop : Steps s moves (s.record moves) (moves.foldl perform s) :=
    steps_of_possible (by decide +kernel)
  have hRecords : atHome.record delivery =
        [.granted 0 (.start [⟨"a"⟩] 5), .spawned 0, .acted 0, .acted 0] ∧
      s.record moves = [.granted 1 .stop, .ended 0, .acted 0, .joined 0] := by
    decide +kernel
  have hCalls : (atHome.rounds 0 (delivery ++ moves)).flatMap Round.calls = [] := by
    decide +kernel
  rw [hRecords.1] at hRun
  rw [hRecords.2] at hStop
  exact ⟨⟨⟨rfl, rfl, rfl⟩, rfl, rfl⟩, s, _, hRun, rfl, ⟨rfl, rfl, by simp, rfl⟩, hStop, rfl, hCalls,
    rfl⟩

end Service

end TreeWatch
