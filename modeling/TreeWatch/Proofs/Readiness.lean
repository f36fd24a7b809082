import TreeWatch.Proofs.Coverage
import TreeWatch.Proofs.Updates

/-!
# What a session that became ready watches

A call that starts a session is answered when the session has subscribed its roots. While nobody
from outside interferes, a session that was started since is as far as its own steps have brought
it (`Session.Undisturbed`): until its roots are subscribed it has no subscriptions at all, and
afterwards it has nothing to do, so that it holds what it held and the disk is the one it walked.

Main results:
  * `Starting.step`: what every move keeps until the call is answered
  * `started_session_covers_roots`: what the engine of the session holds then
  * `linked_root_is_missed`: the roots of which it holds less
-/

namespace TreeWatch

/-- The directories that a request has watched. -/
def Request.dirs? : Request → Option (List Path)
  | .start dirs _ | .update dirs => some dirs
  | .stop => none

/-- A move with which nobody interferes: a step of a call or of a task, or time that passes. -/
def Move.isQuiet : Move → Bool
  | .call | .session _ | .outside (.clock _) => true
  | .begin _ | .outside _ => false

namespace Session

/-- The watch that a session begins with. -/
def firstWatch (session : Session) (rules : Rules) : Coalescer :=
  .new { engine := { rules } } session.roots session.grace

/-- How far a session has come by its own steps, with engines that take requests by given rules and
on a disk that is the one it walked. -/
inductive Grown (rules : Rules) (d : Disk) (session : Session) : Prop where
  | connecting (hPhase : session.phase = .connecting)
  | registering (hPhase : session.phase = .registering (session.firstWatch rules))
  | watching (hResult : ((session.firstWatch rules).registerRoots d).result = .ok ())
      (hPhase : session.phase = .watching ((session.firstWatch rules).registerRoots d).coalescer)
  | failed (hLive : session.isLive = false) (hReady : session.ready ≠ some (.ok ()))

/-- Nobody has interfered with a session. -/
structure Undisturbed (rules : Rules) (d : Disk) (session : Session) : Prop where
  inbox : session.inbox = []
  closed : session.closed = false
  cancelled : session.cancelled = false
  grown : session.Grown rules d

variable {rules : Rules} {d : Disk} {session : Session}

/-- A session with which nobody interferes has no turn to make. -/
theorem Undisturbed.idle {l : Loop} (h : session.Undisturbed rules d)
    (hLoop : session.loop? = some l) (hazard : Hazards) (disk : Disk) (now : Nat) :
    l.turn hazard disk now = none := by
  obtain ⟨c, hPhase, rfl⟩ := loop?_eq_some.mp hLoop
  have hDeadline : c.deadline = none := by
    cases h.grown with
    | connecting hOther | registering hOther => cases hOther.symm.trans hPhase
    | failed hLive hReady => simp [isLive, hPhase] at hLive
    | watching hResult hHere =>
      obtain ⟨registrar, hFrame⟩ := (session.firstWatch rules).registerRoots_frame d
      rw [hFrame] at hHere
      cases hHere.symm.trans hPhase
      rfl
  unfold Loop.turn
  simp [h.inbox, h.closed, h.cancelled, Loop.isDue, hDeadline]

/-- What a session that is over is like has nothing to do with the disk. -/
theorem Undisturbed.over (h : session.Undisturbed rules d) (hOver : session.isLive = false)
    (disk : Disk) : session.Undisturbed rules disk := by
  refine ⟨h.inbox, h.closed, h.cancelled, ?_⟩
  cases h.grown with
  | connecting hPhase | registering hPhase | watching hResult hPhase =>
    simp [isLive, hPhase] at hOver
  | failed hLive hReady => exact .failed hLive hReady

end Session

namespace Service

variable {s s₀ v after : Service} {n number : Nat} {rules : Rules} {dirs roots : List Path}
  {grace : UInt64} {stage : Stage} {moves : List Move} {lives more : List Life} {move : Move}
  {id : SessionId} {a b : Session} {next : AfterStart}

/-! ## Until the call is answered -/

/-- What a call is about to do that has directories watched by a session with a number not below
`n`. -/
def Aims (v : Service) (n : Nat) (dirs : List Path) : Stage → Prop
  | .waiting request => request.dirs? = some dirs
  | .joining _ next => ∃ r, next = some r ∧ r.dirs = Path.dedup dirs
  | .starting id next => n ≤ id ∧
      ((∃ e, next = .restored e) ∨ ∃ session, v.session? id = some session ∧
        session.roots = Path.dedup dirs)

/-- A call that has directories watched is the only one, and nobody has interfered with the sessions
that were started since there were `n` of them. -/
structure Starting (n : Nat) (rules : Rules) (dirs : List Path) (v : Service) : Prop where
  line : ∃ number stage, v.calls = [⟨number, stage⟩] ∧ v.Aims n dirs stage
  older : ∀ id, v.slot = some id → id < n
  backend : v.backend.rules = rules
  count : n ≤ v.sessions.length
  undisturbed : ∀ id session, n ≤ id → v.session? id = some session →
    session.Undisturbed rules v.disk

/-- A session is started, over the directories or to restore the ones before. -/
theorem Starting.spawned (h : v.Starting n rules dirs)
    (hAim : (∃ e, next = .restored e) ∨ roots = Path.dedup dirs)
    (hCalls : after.calls = [⟨number, .starting v.sessions.length next⟩])
    (hSlot : after.slot = v.slot) (hDisk : after.disk = v.disk)
    (hBackend : after.backend = v.backend)
    (hSessions : after.sessions = v.sessions ++ [v.spawn roots grace]) :
    after.Starting n rules dirs where
  line := by
    refine ⟨number, _, hCalls, h.count, hAim.imp_right fun hRoots => ?_⟩
    refine ⟨v.spawn roots grace, ?_, hRoots⟩
    unfold session?
    rw [hSessions, List.getElem?_concat_length]
  older := hSlot ▸ h.older
  backend := hBackend ▸ h.backend
  count := by
    rw [hSessions, List.length_append]
    exact Nat.le_add_right_of_le h.count
  undisturbed id session hNew hSession := by
    unfold session? at hSession
    rw [hSessions, List.getElem?_append] at hSession
    split at hSession
    · rw [hDisk]
      exact h.undisturbed id session hNew hSession
    · rw [List.getElem?_singleton] at hSession
      split at hSession
      · cases hSession
        exact ⟨rfl, rfl, rfl, .connecting rfl⟩
      · cases hSession

/-- A step of the call answers it, or starts a session. -/
theorem Starting.call (h : v.Starting n rules dirs) (hCall : v.stepCall = some after) :
    after.calls = [] ∨ after.Starting n rules dirs := by
  obtain ⟨number, stage, hCalls, hAims⟩ := h.line
  -- the call is the only one, so when it goes there are none
  cases stepCall_cases hCalls hCall with
  | refused request e log hStage hWhy hAfter => exact Or.inl (hAfter ▸ rfl)
  | started id next session log hStage hSession hReady hAfter => exact Or.inl (hAfter ▸ rfl)
  | ended id session result log hAwaited hSession hVerdict hAfter => exact Or.inl (hAfter ▸ rfl)
  | launched others grace log hStage hFree hDirs hAfter =>
    cases hStage
    cases hAims
    subst hAfter
    exact Or.inr (h.spawned (Or.inr rfl) rfl rfl rfl rfl rfl)
  | ending request id next log hStage hHeld hEnds hAfter =>
    cases hStage
    -- the session that is told to stop is an older one
    have hOlder := h.older id hHeld
    subst hAfter
    refine Or.inr ⟨⟨number, _, rfl, ?_⟩, fun other hOther => (by cases hOther), h.backend, ?_,
      ?_⟩
    · cases hEnds with
      | stop => cases hAims
      | update others session hSession =>
        cases hAims
        exact ⟨_, rfl, rfl⟩
    · exact h.count.trans_eq (List.length_modify ..).symm
    · intro other session hNew hSession
      have hSame : (v.sessions.modify id fun session =>
          { session with cancelled := true })[other]? = some session := hSession
      have hApart : id ≠ other := fun hEq => Nat.not_le_of_lt hOlder (hEq ▸ hNew)
      rw [List.getElem?_modify_ne _ _ hApart] at hSame
      exact h.undisturbed other session hNew hSame
  | another id session others grace next log hAwaited hSession hDirs hAnother hAfter =>
    subst hAfter
    cases hAnother with
    | replacing id engine r hPhase =>
      obtain ⟨other, hSame, hRoots⟩ := hAims
      cases hSame
      exact Or.inr (h.spawned (Or.inr hRoots) rfl rfl rfl rfl rfl)
    | restoring id e previous grace hError =>
      exact Or.inr (h.spawned (Or.inl ⟨e, rfl⟩) rfl rfl rfl rfl rfl)

/-! ## Steps of sessions -/

/-- What a step of a session leaves as it is: the rules for engines, and the disk unless a loop
makes its turn. -/
theorem stepSession_around (hSession : v.session? id = some a)
    (hTask : v.stepSession id = some after) : after.backend.rules = v.backend.rules ∧
      ((∀ c, a.phase ≠ .watching c) → after.disk = v.disk) := by
  unfold stepSession at hTask
  rw [hSession] at hTask
  cases hPhase : a.phase with
  | connecting =>
    simp only [hPhase, Option.some.injEq] at hTask
    subst hTask
    unfold connect
    dsimp only
    split
    · exact ⟨rfl, fun _ => rfl⟩
    · split
      · exact ⟨rfl, fun _ => rfl⟩
      · exact ⟨rfl, fun _ => rfl⟩
  | registering c =>
    simp only [hPhase, Option.some.injEq] at hTask
    subst hTask
    unfold register
    dsimp only
    split
    · exact ⟨rfl, fun _ => rfl⟩
    · exact ⟨rfl, fun _ => rfl⟩
    · split
      · exact ⟨rfl, fun _ => rfl⟩
      · exact ⟨rfl, fun _ => rfl⟩
  | watching c =>
    simp only [hPhase, Option.map_eq_some_iff] at hTask
    obtain ⟨turn, -, rfl⟩ := hTask
    refine ⟨?_, fun hOther => absurd rfl (hOther c)⟩
    unfold turned
    dsimp only
    split <;> rfl
  | finished engine crash => simp [hPhase] at hTask

/-- A session that connects an engine begins with the first watch, or is over. -/
theorem connected_first (hSession : v.session? id = some a) (hPhase : a.phase = .connecting)
    (hTask : v.stepSession id = some after) (hAfter : after.session? id = some b)
    (hLive : b.isLive = true) : b.phase = .registering (a.firstWatch v.backend.rules) := by
  unfold stepSession at hTask
  simp only [hSession, hPhase, Option.some.injEq] at hTask
  subst hTask
  have hChanged {t : Service} (f : Session → Session) (hSessions : t.sessions = v.sessions) :
      (t.modifySession id f).session? id = some (f a) := by
    refine session?_modified ?_ f
    unfold session?
    rw [hSessions]
    exact hSession
  unfold connect at hAfter
  dsimp only at hAfter
  split at hAfter
  · cases hAfter.symm.trans (hChanged _ rfl)
    cases hLive
  · split at hAfter
    · rw [report_enterPhase] at hAfter
      cases hAfter.symm.trans (hChanged _ rfl)
      cases hLive
    · cases hAfter.symm.trans (hChanged _ rfl)
      rfl

/-- A session with which nobody interferes stays one in its own steps. -/
theorem undisturbed_acts (h : a.Undisturbed rules v.disk) (hOrder : a.InOrder)
    (hRules : v.backend.rules = rules) (hSession : v.session? id = some a)
    (hTask : v.stepSession id = some after) (hActs : v.Acts id a b)
    (hApart : v.Apart id b after) : b.Undisturbed rules after.disk := by
  obtain ⟨-, hDisk⟩ := stepSession_around hSession hTask
  cases hActs with
  | broke reason hPhase =>
    refine ⟨h.inbox, h.closed, h.cancelled, .failed rfl ?_⟩
    simp [hOrder.unready_of_connecting hPhase]
  | unconnected e hPhase =>
    exact ⟨h.inbox, h.closed, h.cancelled, .failed rfl (by simp)⟩
  | connected registrar hPhase =>
    have hFirst := connected_first hSession hPhase hTask (hApart.changed hSession) rfl
    exact ⟨h.inbox, h.closed, h.cancelled, .registering (hRules ▸ hFirst)⟩
  | unsubscribed c engine e hPhase =>
    exact ⟨h.inbox, h.closed, h.cancelled, .failed rfl (by simp)⟩
  | unwanted c engine hPhase hAbandoned =>
    refine ⟨h.inbox, h.closed, h.cancelled, .failed rfl ?_⟩
    simp [(hOrder.of_registering hPhase).1]
  | subscribed c hPhase hResult =>
    -- what is subscribed are the roots, on the disk as it is now
    have hFirst : c = a.firstWatch rules := by
      cases h.grown with
      | connecting hOther | watching _ hOther => cases hOther.symm.trans hPhase
      | failed hLive hReady => simp [Session.isLive, hPhase] at hLive
      | registering hOther =>
        cases hOther.symm.trans hPhase
        rfl
    subst hFirst
    rw [hDisk fun c hOther => by cases hPhase.symm.trans hOther]
    exact ⟨h.inbox, h.closed, h.cancelled, .watching hResult rfl⟩
  | round r hRound =>
    obtain ⟨⟨session, hSame, hLoop⟩, -⟩ := round?_eq_some.mp hRound
    cases hSame.symm.trans hSession
    cases (h.idle hLoop _ _ _).symm.trans r.taken

/-- A step of a session leaves the call where it is, and all sessions undisturbed. -/
theorem Starting.session (h : v.Starting n rules dirs) (hTidy : v.Tidy)
    (hExclusive : v.Exclusive lives) (hTask : v.stepSession id = some after) :
    after.Starting n rules dirs := by
  obtain ⟨a, b, hSession, hActs, hApart⟩ := stepSession_cases hTask
  obtain ⟨hRules, hDisk⟩ := stepSession_around hSession hTask
  obtain ⟨number, stage, hCalls, hAims⟩ := h.line
  refine ⟨⟨number, stage, hApart.calls.trans hCalls, ?_⟩, fun other hOther => ?_,
    hRules.trans h.backend, ?_, fun other session hNew hOther => ?_⟩
  · cases stage with
    | waiting request | joining other next => exact hAims
    | starting other next =>
      refine ⟨hAims.1, hAims.2.imp_right ?_⟩
      rintro ⟨session, hOther, hRoots⟩
      obtain ⟨later, hLater, hEvolves⟩ := hTidy.evolves (.session id hTask) hOther
      exact ⟨later, hLater, hEvolves.roots.trans hRoots⟩
  · exact h.older other (hApart.slot ▸ hOther)
  · rw [hApart.sessions, List.length_set]
    exact h.count
  · rcases hApart.session_cases hSession hOther with ⟨rfl, rfl⟩ | ⟨hElse, hSame⟩
    · exact undisturbed_acts (h.undisturbed id a hNew hSession) (hTidy.inOrder id a hSession)
        h.backend hSession hTask hActs hApart
    · have hStill := h.undisturbed other session hNew hSame
      by_cases hWatching : ∃ c, a.phase = .watching c
      · -- there is one session at a time, so the other one is over
        obtain ⟨c, hPhase⟩ := hWatching
        refine hStill.over ?_ after.disk
        by_contra hLive
        have hHere := hExclusive.running id a hSession (by simp [Session.isLive, hPhase])
        have hThere := hExclusive.running other session hSame (Bool.not_eq_false _ ▸ hLive)
        exact hElse (Option.some.inj (hHere.symm.trans hThere))
      · rw [hDisk fun c hPhase => hWatching ⟨c, hPhase⟩]
        exact hStill

/-- **Every quiet move** answers the call, or leaves it about to be. -/
theorem Starting.step (h : v.Starting n rules dirs) (hTidy : v.Tidy)
    (hExclusive : v.Exclusive lives) (hStep : Step v move more after)
    (hQuiet : move.isQuiet = true) : after.calls = [] ∨ after.Starting n rules dirs := by
  cases hStep with
  | begin request => cases hQuiet
  | call hCall => exact h.call hCall
  | session id hTask => exact Or.inr (h.session hTidy hExclusive hTask)
  | outside o =>
    cases o with
    | clock now => exact Or.inr ⟨h.line, h.older, h.backend, h.count, h.undisturbed⟩
    | deliver | closeChannel | rules | backend | edit | observe | hazard => cases hQuiet

/-- By quiet moves a call that is begun alone gets answered, or is still about to be. -/
theorem Starting.of_steps {before : List Move} {record : List Life} {request : Request}
    (hFresh : s₀.Fresh) (begun : Steps s₀ before record (s.begin request))
    (h : (s.begin request).Starting n rules dirs) (run : Steps (s.begin request) moves lives v) :
    (∀ move ∈ moves, move.isQuiet = true) → v.calls = [] ∨ v.Starting n rules dirs := by
  induction run with
  | nil => exact fun _ => Or.inr h
  | @snoc moves lives more move v after run hStep ih =>
    intro hQuiet
    have hMove := hQuiet move (by simp)
    rcases ih fun move hMem => hQuiet move (List.mem_append_left _ hMem) with hDone | hStarting
    · -- nothing is left to be answered, and nobody begins anything
      left
      cases hStep with
      | begin request => cases hMove
      | call hCall =>
        obtain ⟨first, rest, hSome⟩ := exists_call hCall
        cases hDone.symm.trans hSome
      | session id hTask => exact (stepSession_effect hTask).calls.trans hDone
      | outside o => exact (undergo_undergone v o).calls.trans hDone
    · have hRun := begun.append run
      exact hStarting.step (hRun.tidy hFresh.tidy) (hRun.exclusive hFresh.toUnused) hStep hMove

/-- A call that is begun while there is no other one is about to have its directories watched. -/
theorem starting_begin {request : Request} (hIdle : s.calls = []) (hTidy : s.Tidy)
    (hRequest : request.dirs? = some dirs) (hLine : (s.begin request).calls ≠ []) :
    (s.begin request).Starting s.sessions.length s.backend.rules dirs := by
  rcases begin_effect s request with ⟨-, hBegun⟩ | ⟨others, e, -, -, hBegun⟩
  · rw [hBegun]
    refine ⟨⟨s.freshCall, .waiting request, by simp [hIdle], hRequest⟩, fun id hSlot => ?_, rfl,
      Nat.le_refl _, fun id session hNew hSession => ?_⟩
    · obtain ⟨session, hSession, -⟩ := hTidy.held id hSlot
      exact (List.getElem?_eq_some_iff.mp hSession).1
    · exact absurd (List.getElem?_eq_some_iff.mp hSession).1 (Nat.not_lt.mpr hNew)
  · rw [hBegun] at hLine
    exact absurd hIdle hLine

/-! ## The answer -/

/-- A call that is answered with success holds a session over its directories, which watches what it
has registered. -/
theorem Starting.answered (h : v.Starting n rules dirs) (hTidy : v.Tidy)
    (hCall : v.stepCall = some after) (hDone : after.calls = [])
    (hAnswer : after.answers.head? = some (number, .ok ())) :
    ∃ id session, after.slot = some id ∧ after.session? id = some session ∧
      session.roots = Path.dedup dirs ∧
      ((session.firstWatch rules).registerRoots after.disk).result = .ok () ∧
      session.phase =
        .watching ((session.firstWatch rules).registerRoots after.disk).coalescer := by
  obtain ⟨called, stage, hCalls, hAims⟩ := h.line
  cases stepCall_cases hCalls hCall with
  | refused request e log hStage hWhy hAfter => subst hAfter; cases hAnswer
  | launched others grace log hStage hFree hDirs hAfter => subst hAfter; cases hDone
  | ending request id next log hStage hHeld hEnds hAfter => subst hAfter; cases hDone
  | another id session others grace next log hAwaited hSession hDirs hAnother hAfter =>
    subst hAfter
    cases hDone
  | ended id session result log hAwaited hSession hVerdict hAfter =>
    subst hAfter
    cases hVerdict with
    | stopped id engine hPhase =>
      obtain ⟨r, hNone, -⟩ := hAims
      cases hNone
    | aborted | irreplaceable | unstarted | unrestored | unrestorable => cases hAnswer
  | started id next session log hStage hSession hReady hAfter =>
    subst hAfter
    obtain rfl : stage = .starting id next := hStage
    obtain ⟨hNew, ⟨e, rfl⟩ | ⟨other, hOther, hRoots⟩⟩ := hAims
    · cases hAnswer
    · cases hOther.symm.trans hSession
      refine ⟨id, session, rfl, hSession, hRoots, ?_⟩
      cases (h.undisturbed id session hNew hSession).grown with
      | connecting hPhase =>
        cases ((hTidy.inOrder id session hSession).unready_of_connecting hPhase).symm.trans hReady
      | registering hPhase =>
        cases ((hTidy.inOrder id session hSession).of_registering hPhase).1.symm.trans hReady
      | watching hResult hPhase => exact ⟨hResult, hPhase⟩
      | failed hLive hUnready => exact absurd hReady hUnready

/-- **A session that was started watches its roots.** A start or an update is begun on a controller
that may have been used before, with an engine that refuses nothing. Nobody interferes, and it is
answered with success. Then a session over the directories is held and watching. If the directories
pass the check on the disk as it is then, the engine of the session holds every root that is no link
itself, and every directory and regular file below the place where a root leads, if the path is
text; only of a root that is named `-` it may hold nothing.
-/
theorem started_session_covers_roots {before : List Move} {record : List Life} {request : Request}
    (hFresh : s₀.Fresh) (run : Steps s₀ before record s) (hIdle : s.calls = [])
    (hRequest : request.dirs? = some dirs)
    (hWilling : ∀ path, s.backend.rules.refuses path = false ∧ s.backend.rules.crashes path = false)
    (hCompletes : s.Completes request moves lives after)
    (hQuiet : ∀ move ∈ moves, move.isQuiet = true)
    (hAnswer : after.answers.head? = some (s.freshCall, .ok ()))
    (hSound : after.disk.Sound) (hValid : validateDirs after.disk dirs = .ok ()) :
    ∃ id session c, after.slot = some id ∧ after.session? id = some session ∧
      session.roots = Path.dedup dirs ∧ session.phase = .watching c ∧
      ∀ root ∈ dirs, ¬ root.SameAs ⟨"-"⟩ → Covers after.disk dirs root c.registrar.engine := by
  have hBegun := run.snoc (.begin request)
  cases hCompletes with
  | atOnce hLine =>
    -- only an error is answered as soon as a call is begun
    rcases begin_effect s request with ⟨-, hEq⟩ | ⟨others, e, -, -, hEq⟩
    · rw [hEq, hIdle] at hLine
      cases hLine
    · rw [hEq] at hAnswer
      cases hAnswer
  | @inLine moves lives last _ rest hAlone hCall hDone =>
    have hLine : (s.begin request).calls ≠ [] := by
      intro hNone
      have hStill := length_calls_le rest hAlone
      obtain ⟨first, line, hSome⟩ := exists_call hCall
      rw [hNone, hSome] at hStill
      simp at hStill
    have hStart := starting_begin hIdle (run.tidy hFresh.tidy) hRequest hLine
    have hTidy := (hBegun.append rest).tidy hFresh.tidy
    rcases hStart.of_steps hFresh hBegun rest fun move hMove =>
      hQuiet move (List.mem_append_left _ hMove) with hOver | hStarting
    · obtain ⟨first, line, hSome⟩ := exists_call hCall
      cases hOver.symm.trans hSome
    · obtain ⟨id, session, hSlot, hSession, hRoots, hResult, hPhase⟩ :=
        hStarting.answered hTidy hCall hDone hAnswer
      refine ⟨id, session, _, hSlot, hSession, hRoots, hPhase, fun root hRoot hDash => ?_⟩
      refine Coalescer.registerRoots_covers hSound ?_ ?_ hRoots hResult hValid hRoot hDash
      · exact ⟨rfl, fun path => (hWilling path).1, fun path => (hWilling path).2⟩
      · -- nothing is subscribed at first
        intro q hSubscribed
        cases hSubscribed

/-- A directory with a file, a link to it, and a directory that is named as standard input is. -/
def furnished : Service where
  disk := ⟨[([.text "-"], .dir), ([.text "-", .text "g"], .file (.text "")), ([.text "a"], .dir),
    ([.text "a", .text "f"], .file (.text "")), ([.text "l"], .link (.text "a"))], []⟩

/-- A session connects its engine and subscribes its roots. -/
def settingUp : List Move :=
  [.call, .session 0, .session 0]

/-- The controller when a start over some directories has been answered. -/
def startedOver (dirs : List Path) : Service :=
  (settingUp.foldl perform (furnished.begin (.start dirs 5))).perform .call

theorem furnished_completes (dirs : List Path)
    (hPossible : (furnished.begin (.start dirs 5)).Possible settingUp)
    (hCall : (settingUp.foldl perform (furnished.begin (.start dirs 5))).stepCall.isSome = true)
    (hDone : (startedOver dirs).calls.isEmpty = true) :
    ∃ lives, furnished.Completes (.start dirs 5) (settingUp ++ [.call]) lives (startedOver dirs) :=
  ⟨_, .inLine (steps_of_possible hPossible) (by decide) (stepCall_perform hCall)
    (List.isEmpty_iff.mp hDone)⟩

/-- A directory is watched with the file in it. -/
theorem started_directory_is_watched : furnished.Fresh ∧ ∃ lives,
    furnished.Completes (.start [⟨"a"⟩] 5) (settingUp ++ [.call]) lives (startedOver [⟨"a"⟩]) ∧
      ∃ session c, (startedOver [⟨"a"⟩]).session? 0 = some session ∧ session.phase = .watching c ∧
        c.registrar.engine.Watches ⟨"a"⟩ ∧ c.registrar.engine.Watches ⟨"a/f"⟩ := by
  have hFresh : furnished.Fresh := ⟨⟨rfl, rfl, rfl⟩, rfl, rfl⟩
  obtain ⟨lives, hCompletes⟩ := furnished_completes [⟨"a"⟩] (by decide +kernel)
    (by decide +kernel) (by decide +kernel)
  have hDisk : (startedOver [⟨"a"⟩]).disk = furnished.disk := by decide +kernel
  have hAnswer : (startedOver [⟨"a"⟩]).answers.head? = some (0, .ok ()) := by decide +kernel
  obtain ⟨id, session, c, hSlot, hSession, -, hPhase, hCovers⟩ :=
    started_session_covers_roots hFresh .nil rfl rfl (fun path => ⟨rfl, rfl⟩) hCompletes
      (by decide) hAnswer (by rw [hDisk]; decide +kernel) (by rw [hDisk]; decide +kernel)
  have hHeld : (startedOver [⟨"a"⟩]).slot = some 0 := by decide +kernel
  cases hSlot.symm.trans hHeld
  have hRoot := hCovers ⟨"a"⟩ (List.mem_singleton_self _) (by decide)
  rw [hDisk] at hRoot
  refine ⟨hFresh, lives, hCompletes, session, c, hSession, hPhase, hRoot.itself ?_, ?_⟩
  · intro other hOther hSame target
    cases List.mem_singleton.mp hOther
    have hStat : furnished.disk.linkStat (⟨"a"⟩ : Path).native = .ok .dir := by decide +kernel
    rw [hStat]
    simp
  · exact hRoot.below [.text "a"] ["f"] (.file (.text "")) (by decide +kernel) (by simp) rfl rfl

/-- **A root that is a link** passes the check of directories, and a start over it succeeds; but the
directory that it leads to is not subscribed, only what is in there. Over a root that is named `-` a
start succeeds with nothing at all subscribed. -/
theorem linked_root_is_missed :
    (validateDirs furnished.disk [⟨"l"⟩] = .ok () ∧
      (∃ lives, furnished.Completes (.start [⟨"l"⟩] 5) (settingUp ++ [.call]) lives
        (startedOver [⟨"l"⟩])) ∧
      (startedOver [⟨"l"⟩]).answers = [(0, .ok ())] ∧
      (((startedOver [⟨"l"⟩]).session? 0).bind Session.engine?).map Engine.held =
        some ["l/f"]) ∧
    validateDirs furnished.disk [⟨"-"⟩] = .ok () ∧
      (∃ lives, furnished.Completes (.start [⟨"-"⟩] 5) (settingUp ++ [.call]) lives
        (startedOver [⟨"-"⟩])) ∧
      (startedOver [⟨"-"⟩]).answers = [(0, .ok ())] ∧
      (((startedOver [⟨"-"⟩]).session? 0).bind Session.engine?).map Engine.held = some [] := by
  refine ⟨⟨by decide +kernel, furnished_completes _ ?_ ?_ ?_, by decide +kernel, by decide +kernel⟩,
    by decide +kernel, furnished_completes _ ?_ ?_ ?_, by decide +kernel, by decide +kernel⟩
  all_goals decide +kernel

end Service

end TreeWatch
