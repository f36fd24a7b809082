import Mathlib.Data.List.Chain
import TreeWatch.Proofs.Renewal
import TreeWatch.Proofs.Serial

/-!
# What a controller shows

The status is written at other moments than the slot, and several times in one operation. Whoever
looks at it at any moment sees a status that fits together (`Status.Sound`) and that follows on the
one before (`Lifecycle.Follows`); and while no call has the lock it says what is in the slot
(`Service.Shows`).

Main results:
  * `Shows.step`: every move keeps `Shows`, and shows statuses that follow on one another
  * `snapshots_follow_lifecycle`: the same of every run from a fresh controller, and what a start
    that failed leaves behind
-/

namespace TreeWatch

/-- The changes of state there are. -/
inductive Lifecycle.Follows : Lifecycle → Lifecycle → Prop where
  | start : Follows .stopped .starting
  | started : Follows .starting .running
  | failed : Follows .starting .stopped
  | stop : Follows .running .stopping
  | stopped : Follows .stopping .stopped

/-- A status that fits together: there are directories and a grace period exactly while there is a
session that watches or winds down, and no two directories agree. -/
structure Status.Sound (status : Status) : Prop where
  dirs : status.dirs ≠ [] ↔ status.state = .running ∨ status.state = .stopping
  grace : status.grace.isSome = true ↔ status.state = .running ∨ status.state = .stopping
  apart : status.dirs.Pairwise fun p q => ¬ p.SameAs q

theorem Status.sound_bare {state : Lifecycle} (h : state = .stopped ∨ state = .starting) :
    Status.Sound { state } := by
  rcases h with rfl | rfl <;> exact ⟨by simp, by simp, .nil⟩

theorem Status.sound_of_watchable {state : Lifecycle} {dirs : List Path} (grace : UInt64)
    (h : state = .running ∨ state = .stopping) (hDirs : Watchable dirs) :
    Status.Sound ⟨state, dirs, some grace⟩ :=
  ⟨by simp [h, hDirs.nonempty], by simp [h], hDirs.apart⟩

/-- The status of a controller that holds a session. -/
def Session.running (session : Session) : Status :=
  ⟨.running, session.roots, some session.grace⟩

/-- The status of a controller whose session winds down. -/
def Session.stopping (session : Session) : Status :=
  ⟨.stopping, session.roots, some session.grace⟩

namespace Service

/-- What the status says, by what the call with the lock is about. -/
inductive Shows (s : Service) : Prop where
  | stopped (hIdle : s.awaited? = none) (hSlot : s.slot = none) (hStatus : s.status = {})
  | running (id : SessionId) (session : Session) (hIdle : s.awaited? = none)
      (hSlot : s.slot = some id) (hSession : s.session? id = some session)
      (hStatus : s.status = session.running)
  | starting (call : Call) (rest : List Call) (id : SessionId) (next : AfterStart)
      (hCalls : s.calls = call :: rest) (hStage : call.stage = .starting id next)
      (hSlot : s.slot = none) (hStatus : s.status = { state := .starting })
  | stopping (call : Call) (rest : List Call) (id : SessionId) (next : Option Replacement)
      (session : Session) (hCalls : s.calls = call :: rest)
      (hStage : call.stage = .joining id next) (hSlot : s.slot = none)
      (hSession : s.session? id = some session) (hStatus : s.status = session.stopping)

variable {s s₀ after : Service} {moves : List Move} {lives more : List Life} {move : Move}
  {first : Call} {rest : List Call}

theorem Fresh.shows (h : s.Fresh) : s.Shows :=
  .stopped (by simp [awaited?, h.calls]) h.slot h.status

/-- What is shown fits together. -/
theorem Shows.sound (h : s.Shows) (hTidy : s.Tidy) : s.status.Sound := by
  cases h with
  | stopped hIdle hSlot hStatus =>
    rw [hStatus]
    exact Status.sound_bare (Or.inl rfl)
  | running id session hIdle hSlot hSession hStatus =>
    rw [hStatus]
    exact Status.sound_of_watchable _ (Or.inl rfl) (hTidy.watchable id session hSession)
  | starting call rest id next hCalls hStage hSlot hStatus =>
    rw [hStatus]
    exact Status.sound_bare (Or.inr rfl)
  | stopping call rest id next session hCalls hStage hSlot hSession hStatus =>
    rw [hStatus]
    exact Status.sound_of_watchable _ (Or.inr rfl) (hTidy.watchable id session hSession)

/-- What is shown depends on the stage of the first call, the slot and what sessions were started
with. -/
theorem Shows.carried (h : s.Shows)
    (hNext : s.Forward after)
    (hStatus : after.status = s.status) (hSlot : after.slot = s.slot)
    (hIdle : s.awaited? = none → after.awaited? = none)
    (hBusy : ∀ call rest id, s.calls = call :: rest → call.stage.awaited? = some id →
      ∃ others, after.calls = call :: others) : after.Shows := by
  cases h with
  | stopped hNobody hFree hShown =>
    exact .stopped (hIdle hNobody) (hSlot.trans hFree) (hStatus.trans hShown)
  | running id session hNobody hHeld hSession hShown =>
    obtain ⟨b, hb, hEvolves⟩ := hNext id session hSession
    refine .running id b (hIdle hNobody) (hSlot.trans hHeld) hb ?_
    rw [hStatus, hShown, Session.running, Session.running, hEvolves.roots, hEvolves.grace]
  | starting call rest id next hHere hStage hFree hShown =>
    obtain ⟨others, hLine⟩ := hBusy call rest id hHere (by rw [hStage]; rfl)
    exact .starting call others id next hLine hStage (hSlot.trans hFree) (hStatus.trans hShown)
  | stopping call rest id next session hHere hStage hFree hSession hShown =>
    obtain ⟨others, hLine⟩ := hBusy call rest id hHere (by rw [hStage]; rfl)
    obtain ⟨b, hb, hEvolves⟩ := hNext id session hSession
    refine .stopping call others id next b hLine hStage (hSlot.trans hFree) hb ?_
    rw [hStatus, hShown, Session.stopping, Session.stopping, hEvolves.roots, hEvolves.grace]

/-- Statuses shown in turn after a first one: latest first, each follows on the one before. -/
structure ShownAfter (before : Status) (recent : List Status) : Prop where
  follows : (recent ++ [before]).IsChain fun later earlier => earlier.state.Follows later.state
  sound : ∀ status ∈ recent, status.Sound

theorem shownAfter_nil (before : Status) : ShownAfter before [] :=
  ⟨.singleton _, by simp⟩

theorem ShownAfter.one {before status : Status} (h : before.state.Follows status.state)
    (hSound : status.Sound) : ShownAfter before [status] :=
  ⟨.cons_cons h (.singleton _), by simpa using hSound⟩

theorem ShownAfter.two {before first second : Status} (h : before.state.Follows first.state)
    (h' : first.state.Follows second.state) (hFirst : first.Sound) (hSecond : second.Sound) :
    ShownAfter before [second, first] :=
  ⟨.cons_cons h' (.cons_cons h (.singleton _)), by simpa using ⟨hSecond, hFirst⟩⟩

/-- What was shown after something that was shown in turn was shown in turn. -/
theorem ShownAfter.trans {a b : Status} {xs ys rest rest' : List Status} (h : ShownAfter a xs)
    (h' : ShownAfter b ys) (hEq : b :: rest' = xs ++ a :: rest) : ShownAfter a (ys ++ xs) := by
  refine ⟨?_, fun status hMem => (List.mem_append.mp hMem).elim (h'.sound status) (h.sound status)⟩
  cases xs with
  | nil =>
    rw [List.nil_append, List.cons.injEq] at hEq
    rw [List.append_nil, ← hEq.1]
    exact h'.follows
  | cons x xs =>
    rw [List.cons_append, List.cons.injEq] at hEq
    rw [List.append_assoc, List.cons_append, List.isChain_split, ← hEq.1]
    exact ⟨h'.follows, hEq.1 ▸ h.follows⟩

/-! ## By the stage of the first call -/

/-- The session that is held is shown. -/
theorem Shows.of_held {id : SessionId} (h : s.Shows) (hHeld : s.slot = some id) :
    ∃ session, s.session? id = some session ∧ s.status = session.running := by
  cases h with
  | running other session hIdle hSlot hSession hStatus =>
    obtain rfl : other = id := Option.some.inj (hSlot.symm.trans hHeld)
    exact ⟨session, hSession, hStatus⟩
  | stopped hIdle hSlot hStatus => cases hSlot.symm.trans hHeld
  | starting call rest other next hCalls hStage hSlot hStatus => cases hSlot.symm.trans hHeld
  | stopping call rest other next session hCalls hStage hSlot hSession hStatus =>
    cases hSlot.symm.trans hHeld

/-- Without a session, and without a call that waits for one, the controller is shown stopped. -/
theorem Shows.of_free (h : s.Shows) (hNobody : s.awaited? = none) (hFree : s.slot = none) :
    s.status = {} := by
  cases h with
  | stopped hIdle hSlot hStatus => exact hStatus
  | running id session hIdle hSlot hSession hStatus => cases hFree.symm.trans hSlot
  | starting call rest id next hCalls hStage hSlot hStatus =>
    rw [awaited?_head hCalls, hStage] at hNobody
    cases hNobody
  | stopping call rest id next session hCalls hStage hSlot hSession hStatus =>
    rw [awaited?_head hCalls, hStage] at hNobody
    cases hNobody

theorem Shows.of_starting {id : SessionId} {next : AfterStart} (h : s.Shows)
    (hCalls : s.calls = first :: rest) (hStage : first.stage = .starting id next) :
    s.slot = none ∧ s.status = { state := .starting } := by
  have hAwaited : s.awaited? = some id := by rw [awaited?_head hCalls, hStage]; rfl
  cases h with
  | stopped hIdle hSlot hStatus => rw [hIdle] at hAwaited; cases hAwaited
  | running id session hIdle hSlot hSession hStatus => rw [hIdle] at hAwaited; cases hAwaited
  | starting call rest id next hHere hOther hSlot hStatus => exact ⟨hSlot, hStatus⟩
  | stopping call rest id next session hHere hOther hSlot hSession hStatus =>
    cases hCalls.symm.trans hHere
    cases hStage.symm.trans hOther

theorem Shows.of_joining {id : SessionId} {next : Option Replacement} (h : s.Shows)
    (hCalls : s.calls = first :: rest) (hStage : first.stage = .joining id next) :
    s.slot = none ∧ ∃ session, s.session? id = some session ∧ s.status = session.stopping := by
  have hAwaited : s.awaited? = some id := by rw [awaited?_head hCalls, hStage]; rfl
  cases h with
  | stopped hIdle hSlot hStatus => rw [hIdle] at hAwaited; cases hAwaited
  | running id session hIdle hSlot hSession hStatus => rw [hIdle] at hAwaited; cases hAwaited
  | starting call rest id next hHere hOther hSlot hStatus =>
    cases hCalls.symm.trans hHere
    cases hStage.symm.trans hOther
  | stopping call rest id next session hHere hOther hSlot hSession hStatus =>
    cases hCalls.symm.trans hHere
    cases hStage.symm.trans hOther
    exact ⟨hSlot, session, hSession, hStatus⟩

/-- Who finds a session over does so while it is being started or winds down. -/
theorem Shows.of_awaited {id : SessionId} (h : s.Shows) (hCalls : s.calls = first :: rest)
    (hAwaited : first.stage.awaited? = some id) :
    s.slot = none ∧ s.status.state.Follows .stopped := by
  cases hStage : first.stage with
  | waiting request => rw [hStage] at hAwaited; cases hAwaited
  | starting other next =>
    obtain ⟨hSlot, hStatus⟩ := h.of_starting hCalls hStage
    exact ⟨hSlot, hStatus ▸ .failed⟩
  | joining other next =>
    obtain ⟨hSlot, session, -, hStatus⟩ := h.of_joining hCalls hStage
    exact ⟨hSlot, hStatus ▸ .stopped⟩

/-! ## Steps -/

/-- What a step of the first call shows. -/
theorem Shows.call (h : s.Shows) (hTidy : s.Tidy)
    (hLine : ∀ call ∈ s.calls.tail, ∃ request, call.stage = .waiting request)
    (hCall : s.stepCall = some after) :
    after.Shows ∧ ∃ recent, after.status :: after.shown = recent ++ s.status :: s.shown ∧
      ShownAfter s.status recent := by
  have hNext := hTidy.forward (.call hCall)
  obtain ⟨first, rest, hCalls⟩ := exists_call hCall
  -- once the first call is answered, nobody is awaited
  have hRest : ∀ call ∈ rest, ∃ request, call.stage = .waiting request := by
    rwa [hCalls] at hLine
  have hStopped : Status.Sound {} := Status.sound_bare (Or.inl rfl)
  have hStarting : Status.Sound { state := .starting } := Status.sound_bare (Or.inr rfl)
  cases stepCall_cases hCalls hCall with
  | refused request e log hStage hWhy hAfter =>
    subst hAfter
    refine ⟨h.carried hNext rfl rfl (fun _ => awaited?_of_waiting hRest) ?_, [], rfl,
      shownAfter_nil _⟩
    intro call others id hHere hAwaited
    cases hCalls.symm.trans hHere
    rw [hStage] at hAwaited
    cases hAwaited
  | launched dirs grace log hStage hFree hDirs hAfter =>
    subst hAfter
    have hStatus := h.of_free (by rw [awaited?_head hCalls, hStage]; rfl) hFree
    have hShown : { s.status with state := .starting } = ({ state := .starting } : Status) := by
      rw [hStatus]
    refine ⟨.starting _ rest _ _ rfl rfl hFree hShown, [{ s.status with state := .starting }], rfl,
      ?_⟩
    rw [hShown, hStatus]
    exact .one .start hStarting
  | ending request id next log hStage hHeld hEnds hAfter =>
    subst hAfter
    obtain ⟨session, hSession, hStatus⟩ := h.of_held hHeld
    have hShown : { s.status with state := .stopping } = session.stopping := by
      rw [hStatus]
      rfl
    obtain ⟨b, hb, hEvolves⟩ := hNext id session hSession
    have hSame : b.stopping = session.stopping := by
      rw [Session.stopping, Session.stopping, hEvolves.roots, hEvolves.grace]
    refine ⟨.stopping _ rest id next b rfl rfl rfl hb (hShown.trans hSame.symm),
      [{ s.status with state := .stopping }], rfl, ?_⟩
    rw [hShown, hStatus]
    exact .one .stop
      (Status.sound_of_watchable _ (Or.inr rfl) (hTidy.watchable id session hSession))
  | started id next session log hStage hSession hReady hAfter =>
    subst hAfter
    obtain ⟨-, hStatus⟩ := h.of_starting hCalls hStage
    refine ⟨.running id session (awaited?_of_waiting hRest) rfl hSession rfl, [session.running],
      rfl, ?_⟩
    rw [hStatus]
    exact .one .started
      (Status.sound_of_watchable _ (Or.inl rfl) (hTidy.watchable id session hSession))
  | ended id session result log hAwaited hSession hVerdict hAfter =>
    subst hAfter
    obtain ⟨hSlot, hFollows⟩ := h.of_awaited hCalls hAwaited
    exact ⟨.stopped (awaited?_of_waiting hRest) hSlot rfl, [{}], rfl, .one hFollows hStopped⟩
  | another id session dirs grace next log hAwaited hSession hDirs hAnother hAfter =>
    subst hAfter
    obtain ⟨hSlot, hFollows⟩ := h.of_awaited hCalls hAwaited
    exact ⟨.starting _ rest _ _ rfl rfl hSlot rfl, [{ state := .starting }, {}], rfl,
      .two hFollows .start hStopped hStarting⟩

/-- **Every move** shows statuses that follow on one another, and leaves one that says what is in
the slot. -/
theorem Shows.step (h : s.Shows) (hTidy : s.Tidy)
    (hLine : ∀ call ∈ s.calls.tail, ∃ request, call.stage = .waiting request)
    (hStep : Step s move more after) :
    after.Shows ∧ ∃ recent, after.status :: after.shown = recent ++ s.status :: s.shown ∧
      ShownAfter s.status recent := by
  have hNext := hTidy.forward hStep
  -- only a step of a call shows anything
  have hQuiet (hStatus : after.status = s.status) (hShown : after.shown = s.shown)
      (hAfter : after.Shows) :
      after.Shows ∧ ∃ recent, after.status :: after.shown = recent ++ s.status :: s.shown ∧
        ShownAfter s.status recent :=
    ⟨hAfter, [], by rw [hStatus, hShown]; rfl, shownAfter_nil _⟩
  have hSame (hCalls : after.calls = s.calls) (hStatus : after.status = s.status)
      (hSlot : after.slot = s.slot) : after.Shows :=
    h.carried hNext hStatus hSlot (fun hIdle => by rwa [awaited?, hCalls])
      fun call rest id hHere _ => ⟨rest, hCalls.trans hHere⟩
  cases hStep with
  | begin request =>
    rcases begin_effect s request with ⟨-, hBegun⟩ | ⟨dirs, e, -, -, hBegun⟩
    · rw [hBegun] at hNext hQuiet ⊢
      refine hQuiet rfl rfl (h.carried hNext rfl rfl ?_ ?_)
      · intro hIdle
        cases hCalls : s.calls with
        | nil => simp [awaited?]
        | cons call rest => simpa [awaited?, hCalls] using hIdle
      · intro call rest id hHere _
        exact ⟨rest ++ [⟨s.freshCall, .waiting request⟩], by simp [hHere]⟩
    · rw [hBegun] at hSame hQuiet ⊢
      exact hQuiet rfl rfl (hSame rfl rfl rfl)
  | call hCall => exact h.call hTidy hLine hCall
  | session id hTask =>
    obtain ⟨session, b, hSession, -, hApart⟩ := stepSession_cases hTask
    exact hQuiet hApart.status hApart.shown (hSame hApart.calls hApart.status hApart.slot)
  | outside o =>
    have hUndergone := undergo_undergone s o
    exact hQuiet hUndergone.status hUndergone.shown
      (hSame hUndergone.calls hUndergone.status hUndergone.slot)

/-- **Every run** does so. -/
theorem Steps.shows (run : Steps s₀ moves lives s) (hFresh : s₀.Fresh) :
    s.Shows ∧ ∃ recent, s.status :: s.shown = recent ++ s₀.status :: s₀.shown ∧
      ShownAfter s₀.status recent := by
  induction run with
  | nil => exact ⟨hFresh.shows, [], rfl, shownAfter_nil _⟩
  | snoc run hStep ih =>
    obtain ⟨hShows, recent, hShown, hRecent⟩ := ih
    obtain ⟨hAfter, more, hMore, hTurn⟩ :=
      hShows.step (run.tidy hFresh.tidy) (run.exclusive hFresh.toUnused).line hStep
    refine ⟨hAfter, more ++ recent, ?_, hRecent.trans hTurn hShown⟩
    rw [hMore, hShown, List.append_assoc]

/-! ## A start that failed -/

/-- A call that starts a session: it holds the lock while no session is held, or waits for the
session it has started to become ready. -/
inductive Starts (s : Service) : Stage → Prop where
  | free (dirs : List Path) (grace : UInt64) (hFree : s.slot = none) :
      Starts s (.waiting (.start dirs grace))
  | waits (id : SessionId) : Starts s (.starting id .answer)

/-- A start that fails leaves a stopped controller behind. -/
theorem Shows.start_failed {e : WatchError} (h : s.Shows) (hCalls : s.calls = first :: rest)
    (hStarts : s.Starts first.stage) (hCall : s.stepCall = some after)
    (hAnswer : after.answers = (first.id, .error e) :: s.answers) :
    after.calls = rest ∧ after.slot = none ∧ after.status = {} := by
  have hUnanswered (hNone : s.answers = (first.id, .error e) :: s.answers) : False := by
    simpa using congrArg List.length hNone
  cases stepCall_cases hCalls hCall with
  | refused request e' log hStage hWhy hAfter =>
    subst hAfter
    have hNobody : s.awaited? = none := by rw [awaited?_head hCalls, hStage]; rfl
    rw [hStage] at hStarts
    cases hStarts with
    | free dirs grace hFree => exact ⟨rfl, hFree, h.of_free hNobody hFree⟩
  | launched dirs grace log hStage hFree hDirs hAfter =>
    subst hAfter
    exact (hUnanswered hAnswer).elim
  | ending request id next log hStage hHeld hEnds hAfter =>
    subst hAfter
    exact (hUnanswered hAnswer).elim
  | started id next session log hStage hSession hReady hAfter =>
    subst hAfter
    rw [hStage] at hStarts
    cases hStarts
    cases (Prod.ext_iff.mp (List.cons.inj hAnswer).1).2
  | ended id session result log hAwaited hSession hVerdict hAfter =>
    subst hAfter
    exact ⟨rfl, (h.of_awaited hCalls hAwaited).1, rfl⟩
  | another id session dirs grace next log hAwaited hSession hDirs hAnother hAfter =>
    subst hAfter
    exact (hUnanswered hAnswer).elim

/-- Without a session there is nothing to stop. -/
theorem stop_refused {number : Nat} (hCalls : s.calls = ⟨number, .waiting .stop⟩ :: rest)
    (hSlot : s.slot = none) : s.stepCall =
      some { s with calls := rest, answers := (number, .error .notRunning) :: s.answers } := by
  unfold stepCall
  rw [hCalls]
  simp only [serve, hSlot, answer, hCalls]

/-! ## Main result -/

/--
**What a controller shows.** In every run of a fresh controller, however calls, sessions and the
world are interleaved, and whatever fails:

* the statuses shown follow on one another only from stopped to starting, from starting to running
  or stopped, from running to stopping and from stopping to stopped; each of them has directories
  exactly if it has a grace period, exactly while it is running or stopping, and no two of the
  directories agree; and no move takes back what was shown;
* while no call is in progress, the controller is running with the directories and the grace period
  of the session that is held, or stopped and holds none;
* a start that fails leaves a stopped controller without a session; without a session a stop is
  refused, and changes nothing; and without a session and calls everything that can happen from
  then on can happen to a fresh controller in the same way, up to the numbers of sessions, and
  nothing else can.
-/
theorem snapshots_follow_lifecycle (hFresh : s₀.Fresh) (run : Steps s₀ moves lives s) :
    (∃ recent, s.status :: s.shown = recent ++ s₀.status :: s₀.shown ∧
      ((recent ++ [s₀.status]).IsChain fun later earlier =>
        earlier.state.Follows later.state) ∧
      ∀ status ∈ recent ++ [s₀.status], status.Sound) ∧
    (∀ move more after, Step s move more after →
      s.status :: s.shown <:+ after.status :: after.shown) ∧
    (s.calls = [] →
      (∃ id session, s.slot = some id ∧ s.session? id = some session ∧
        s.status = ⟨.running, session.roots, some session.grace⟩) ∨
      s.slot = none ∧ s.status = ⟨.stopped, [], none⟩) ∧
    (∀ first rest e after, s.calls = first :: rest → s.Starts first.stage →
      s.stepCall = some after → after.answers = (first.id, .error e) :: s.answers →
      after.calls = rest ∧ after.slot = none ∧ after.status = ⟨.stopped, [], none⟩) ∧
    (s.slot = none → ∀ number rest, s.calls = ⟨number, .waiting .stop⟩ :: rest → s.stepCall =
      some { s with calls := rest, answers := (number, .error .notRunning) :: s.answers }) ∧
    (s.calls = [] → s.slot = none →
      (s.since s.sessions.length).Fresh ∧
      (∀ moves lives t, Steps s moves lives t →
        Steps (s.since s.sessions.length) (moves.map (Move.since s.sessions.length))
          (lives.map (Life.since s.sessions.length)) (t.since s.sessions.length)) ∧
      ∀ moves lives t, Steps (s.since s.sessions.length) moves lives t →
        ∃ more u, Steps s (moves.map (Move.after s.sessions.length)) more u ∧
          u.since s.sessions.length = t ∧ more.map (Life.since s.sessions.length) = lives) := by
  have hTidy := run.tidy hFresh.tidy
  have hExclusive := run.exclusive hFresh.toUnused
  obtain ⟨hShows, recent, hShown, hRecent⟩ := run.shows hFresh
  refine ⟨⟨recent, hShown, hRecent.follows, ?_⟩, ?_, ?_, ?_, ?_, ?_⟩
  · intro status hStatus
    rcases List.mem_append.mp hStatus with hHere | hFirst
    · exact hRecent.sound status hHere
    · rw [List.mem_singleton.mp hFirst]
      exact hFresh.shows.sound hFresh.tidy
  · intro move more after hStep
    obtain ⟨-, new, hNew, -⟩ := hShows.step hTidy hExclusive.line hStep
    exact ⟨new, hNew.symm⟩
  · intro hCalls
    cases hSlot : s.slot with
    | none => exact Or.inr ⟨rfl, hShows.of_free (by rw [awaited?, hCalls]) hSlot⟩
    | some id =>
      obtain ⟨session, hSession, hStatus⟩ := hShows.of_held hSlot
      exact Or.inl ⟨id, session, rfl, hSession, hStatus⟩
  · intro first rest e after hCalls hStarts hCall hAnswer
    exact hShows.start_failed hCalls hStarts hCall hAnswer
  · exact fun hSlot number rest hCalls => stop_refused hCalls hSlot
  · intro hCalls hSlot
    have hStatus := hShows.of_free (by rw [awaited?, hCalls]) hSlot
    obtain ⟨hPast, hRenewed⟩ := since_fresh hTidy hExclusive hCalls hSlot hStatus
    refine ⟨hRenewed, fun moves lives t hRun => (hRun.since hPast hTidy).2, ?_⟩
    intro moves lives t hRun
    obtain ⟨more, u, hFull, -, hSame, hMore⟩ := hRun.of_since hPast hTidy
    exact ⟨more, u, hFull, hSame, hMore⟩

/-- A start whose engine cannot be connected: the controller has shown that it was starting, is
stopped again, and is as good as new. -/
theorem failed_start_shows_stopped :
    failingOnce.Fresh ∧
      ∃ s : Service, Steps failingOnce [.begin (.start [⟨"a"⟩] 5), .call, .session 0, .call]
          [.granted 0 (.start [⟨"a"⟩] 5), .spawned 0, .acted 0, .joined 0] s ∧
        (s.status :: s.shown).map Status.state = [.stopped, .starting, .stopped] ∧
        s.calls = [] ∧ s.slot = none ∧ s.sessions.length = 1 ∧
        (s.since s.sessions.length).Fresh := by
  have hFresh : failingOnce.Fresh := ⟨⟨rfl, rfl, rfl⟩, rfl, rfl⟩
  have hBegun := Steps.snoc (@Steps.nil failingOnce) (.begin (.start [⟨"a"⟩] 5))
  have hSpawned := hBegun.snoc (.call rfl)
  have hFailed := hSpawned.snoc (.session 0 rfl)
  have hRun := hFailed.snoc (.call rfl)
  exact ⟨hFresh, _, hRun, rfl, rfl, rfl, rfl,
    ((snapshots_follow_lifecycle hFresh hRun).2.2.2.2.2 rfl rfl).1⟩

end Service

end TreeWatch
