import TreeWatch.Controller.Reload
import TreeWatch.Proofs.Reachable
import TreeWatch.Proofs.Scheduling

/-!
# Reloads

A configuration file is applied in two parts. What can be said at once is that the file cannot be
used, or that it lists what is watched already. Otherwise an update is begun, and its answer is
waited for.

`Applies` are all the ways in which that can go, however sessions and the world go on meanwhile,
and `ReloadEnds` is what they come to. What was watched before goes on untouched unless there are
other directories to watch, and then exactly these are watched: what is compared with the file the
next time is what the file was read as.

Main results:
  * `Applies.ends`: how an application can end
  * `applies_apply`, `FairRun.applies`: it does end
  * `reload_is_safe_and_idempotent`: what an application may touch, and that the next one is idle
-/

namespace TreeWatch

/-- The answers that say that what is watched was left alone: there was nothing to change, the file
or its directories are no good, or no session was held. -/
inductive Harmless : Except ReloadError Bool → Prop where
  | unchanged : Harmless (.ok false)
  | unusable (e : ConfigError) : Harmless (.error (.config e))
  | unwatchable (e : ConfigError) : Harmless (.error (.watch (.config e)))
  | notRunning : Harmless (.error (.watch .notRunning))

namespace Service

variable {s begun after : Service} {path : Path} {dirs : List Path} {moves : List Move}
  {lives record : List Life} {log : List LogLine} {call : Nat} {answer : Except WatchError Unit}
  {result : Except ReloadError Bool}

/-! ## Beginnings -/

/-- The file can be used, and lists the directories that are shown, in their order. -/
def UpToDate (s : Service) (path : Path) : Prop :=
  ∃ config, Config.load s.disk path = .ok config ∧
    config.watch.uniqueDirs.map Path.components = s.status.dirs.map Path.components

/-- What beginning to apply a file comes to. The log is the only thing that is touched before an
update is begun. -/
inductive Begins (s : Service) (path : Path) : Service × Applied → Prop where
  | unusable (e : ConfigError) (hLoad : Config.load s.disk path = .error e) :
      Begins s path (s, .answered (.error (.config e)))
  | unchanged (log : List LogLine) (hSame : s.UpToDate path) :
      Begins s path ({ s with log }, .answered (.ok false))
  | changed (config : Config) (log : List LogLine) (hLoad : Config.load s.disk path = .ok config)
      (hDiffer : ¬ s.UpToDate path) :
      Begins s path ({ s with log }.begin (.update config.watch.uniqueDirs), .updating s.freshCall)

theorem noteGrace_eq (s : Service) (configured : UInt64) :
    ∃ log, s.noteGrace configured = { s with log } := by
  unfold noteGrace
  split
  · split
    · exact ⟨s.log, rfl⟩
    · exact ⟨_, rfl⟩
  · exact ⟨s.log, rfl⟩

theorem beginUpdate_eq (s : Service) (dirs : List Path) :
    s.beginUpdate dirs = (s.begin (.update dirs), s.freshCall) := by
  refine Prod.ext rfl ?_
  unfold beginUpdate
  split <;> rfl

/-- **Applying a file** begins in one of three ways. -/
theorem beginApply_cases (s : Service) (path : Path) : s.Begins path (s.beginApply path) := by
  unfold beginApply
  cases hLoad : Config.load s.disk path with
  | error e => exact .unusable e hLoad
  | ok config =>
    obtain ⟨log, hNoted⟩ := s.noteGrace_eq config.watch.gracePeriodMs
    dsimp only
    rw [hNoted]
    -- the lists are compared by components
    split
    · next hSame => exact .unchanged log ⟨config, hLoad, eq_of_beq hSame⟩
    · next hDiffer =>
      rw [beginUpdate_eq]
      refine .changed config log hLoad ?_
      rintro ⟨other, hOther, hSame⟩
      obtain rfl : other = config := Except.ok.inj (hOther.symm.trans hLoad)
      exact hDiffer (beq_iff_eq.mpr hSame)

/-- A file that is up to date is applied at once. -/
theorem UpToDate.beginApply_eq (h : s.UpToDate path) :
    ∃ log, s.beginApply path = ({ s with log }, .answered (.ok false)) := by
  have hCases := s.beginApply_cases path
  generalize s.beginApply path = begun at hCases
  cases hCases with
  | unusable e hLoad =>
    obtain ⟨config, hRead, -⟩ := h
    cases hLoad.symm.trans hRead
  | unchanged log hSame => exact ⟨log, rfl⟩
  | changed config log hLoad hDiffer => exact absurd h hDiffer

/-! ## Applications -/

/-- What the answer to an update is to the application that began it. -/
def reloaded : Except WatchError Unit → Except ReloadError Bool
  | .ok () => .ok true
  | .error e => .error (.watch e)

/-- A file is applied, from the beginning to the answer, with the moves that are made meanwhile. No
call is begun among them. -/
inductive Applies (s : Service) (path : Path) :
    List Move → Except ReloadError Bool → Service → Prop where
  /-- The file cannot be used, or lists what is watched already. -/
  | atOnce {result : Except ReloadError Bool} {after : Service}
      (hBegin : s.beginApply path = (after, .answered result)) : Applies s path [] result after
  /-- The update is answered as it begins. -/
  | refused {call : Nat} {begun : Service} {answer : Except WatchError Unit}
      (hBegin : s.beginApply path = (begun, .updating call)) (hLine : begun.calls = [])
      (hAnswer : begun.answerTo? call = some answer) : Applies s path [] (reloaded answer) begun
  /-- The update gets in line, and its last step answers it. -/
  | updated {call : Nat} {begun last after : Service} {moves : List Move} {lives : List Life}
      {answer : Except WatchError Unit} (hBegin : s.beginApply path = (begun, .updating call))
      (run : Steps begun moves lives last) (hAlone : ∀ move ∈ moves, move.isBegin = false)
      (hCall : last.stepCall = some after) (hDone : after.calls = [])
      (hAnswer : after.answerTo? call = some answer) :
      Applies s path (moves ++ [.call]) (reloaded answer) after

/-- Nothing but the log and the answers has changed, or whatever else has would have done so all the
same. -/
inductive Untouched (s : Service) : List Move → Service → Prop where
  | atOnce (log : List LogLine) (answers : List (Nat × Except WatchError Unit)) :
      Untouched s [] { s with log, answers }
  /-- Without a session there is nothing to touch. -/
  | inTurn (log : List LogLine) (answers : List (Nat × Except WatchError Unit)) (moves : List Move)
      (lives : List Life) (t : Service) (hFree : s.slot = none)
      (hAlone : ∀ move ∈ moves, move.isBegin = false) (hRun : Steps { s with log } moves lives t) :
      Untouched s (moves ++ [.call]) { t with answers }

/-- Why an application leaves alone what is watched, by what it answers. -/
inductive Spares (s : Service) (path : Path) : Except ReloadError Bool → Prop where
  | unchanged (hSame : s.UpToDate path) : Spares s path (.ok false)
  | unusable (e : ConfigError) (hLoad : Config.load s.disk path = .error e) :
      Spares s path (.error (.config e))
  | unwatchable (config : Config) (e : ConfigError) (hLoad : Config.load s.disk path = .ok config)
      (hDirs : validateDirs s.disk config.watch.uniqueDirs = .error e) :
      Spares s path (.error (.watch (.config e)))
  | notRunning (hFree : s.slot = none) : Spares s path (.error (.watch .notRunning))

/-- How an application can end. -/
inductive ReloadEnds (s : Service) (path : Path) :
    List Move → Except ReloadError Bool → Service → Prop where
  | untouched {moves : List Move} {result : Except ReloadError Bool} {after : Service}
      (hWhy : s.Spares path result) (hSame : s.Untouched moves after) :
      ReloadEnds s path moves result after
  | switched {moves : List Move} {after : Service} (config : Config) (id : SessionId)
      (old : Session) (hLoad : Config.load s.disk path = .ok config) (hHeld : s.slot = some id)
      (hOld : s.session? id = some old) (hShown : s.status = old.running)
      (hRuns : after.Runs s.sessions.length config.watch.uniqueDirs old.grace) :
      ReloadEnds s path moves (.ok true) after
  /-- The session before had crashed, or the new one failed. -/
  | failed {moves : List Move} {after : Service} (e : WatchError) (hError : e.OfSession) :
      ReloadEnds s path moves (.error (.watch e)) after

/-- Whether anything is to be done can be told from the file and from what is shown. -/
theorem Applies.unchanged_iff (h : s.Applies path moves result after) :
    result = .ok false ↔ s.UpToDate path := by
  -- an update does not answer that nothing has changed
  have hReloaded (answer : Except WatchError Unit) : reloaded answer ≠ .ok false := by
    cases answer <;> simp [reloaded]
  constructor
  · rintro rfl
    generalize hAnswer : Except.ok false = result at h
    cases h with
    | atOnce hBegin =>
      have hCases := s.beginApply_cases path
      rw [hBegin, ← hAnswer] at hCases
      cases hCases with
      | unchanged log hSame => exact hSame
    | refused hBegin hLine hGiven => exact absurd hAnswer.symm (hReloaded _)
    | updated hBegin run hAlone hCall hDone hGiven => exact absurd hAnswer.symm (hReloaded _)
  · intro hSame
    obtain ⟨log, hBegun⟩ := hSame.beginApply_eq
    cases h with
    | atOnce hBegin =>
      rw [hBegun] at hBegin
      cases hBegin
      rfl
    | refused hBegin hLine hGiven =>
      rw [hBegun] at hBegin
      cases hBegin
    | updated hBegin run hAlone hCall hDone hGiven =>
      rw [hBegun] at hBegin
      cases hBegin

/-- An application leaves no calls behind. -/
theorem Applies.idle (hIdle : s.calls = []) (h : s.Applies path moves result after) :
    after.calls = [] := by
  cases h with
  | atOnce hBegin =>
    have hCases := s.beginApply_cases path
    rw [hBegin] at hCases
    cases hCases with
    | unusable e hLoad => exact hIdle
    | unchanged log hSame => exact hIdle
  | refused hBegin hLine hGiven => exact hLine
  | updated hBegin run hAlone hCall hDone hGiven => exact hDone

/-! ## Ends -/

theorem uniqueDirs_apart (c : WatchConfig) : Path.dedup c.uniqueDirs = c.uniqueDirs :=
  Path.dedup_eq_self (Path.dedup_pairwise c.dirs)

/-- The answer given last is the one to its call. -/
theorem answerTo?_last {earlier : List (Nat × Except WatchError Unit)}
    (h : after.answers = (call, answer) :: earlier) : after.answerTo? call = some answer := by
  rw [answerTo?, h]
  exact List.lookup_cons_self

/-- An update that an application began ends the application. -/
theorem Completes.reload_ends {config : Config} (h : s.Consistent) (hIdle : s.calls = [])
    (hLoad : Config.load s.disk path = .ok config)
    (hUpdate : { s with log }.Completes (.update config.watch.uniqueDirs) moves lives after)
    (hAfter : after.Consistent) (hAnswer : after.answerTo? s.freshCall = some answer) :
    s.ReloadEnds path moves (reloaded answer) after := by
  have hNoted := h.noted log
  have hIs {given : Except WatchError Unit} {earlier : List (Nat × Except WatchError Unit)}
      (hGiven : after.answers = (s.freshCall, given) :: earlier) : answer = given :=
    Option.some.inj (hAnswer.symm.trans (answerTo?_last hGiven))
  cases hValid : validateDirs s.disk config.watch.uniqueDirs with
  | error why =>
    obtain ⟨rfl, -, rfl⟩ := hUpdate.of_invalid hIdle hValid
    obtain rfl := hIs rfl
    exact .untouched (.unwatchable config why hLoad hValid) (.atOnce log _)
  | ok _ =>
    cases hSlot : s.slot with
    | none =>
      obtain ⟨rest, others, t, rfl, hAlone, hRun, rfl⟩ := hUpdate.of_free hIdle hSlot hValid
      obtain rfl := hIs rfl
      exact .untouched (.notRunning hSlot) (.inTurn log _ rest others t hSlot hAlone hRun)
    | some id =>
      obtain ⟨rounds, hWatched⟩ := hNoted.watched
      obtain ⟨outcome, hEnds⟩ := hUpdate.ends hNoted.tidy hWatched hIdle
      cases hEnds with
      | untouched e rest others t hWhy hMoves hRun hEnd hRecord =>
        -- the directories are good, and there is a session
        rcases hWhy with ⟨why, hInvalid, -⟩ | ⟨-, hFree, -⟩
        · cases hInvalid.symm.trans hValid
        · cases hFree.symm.trans hSlot
      | replaced other old hHeld hOld hFlushed hRuns hGiven hRecord =>
        obtain rfl := hIs hGiven
        obtain ⟨session, hSession, hStatus⟩ := h.shown other hHeld
        obtain rfl : old = session := Option.some.inj (hOld.symm.trans hSession)
        -- the update leaves the list as the application compared it
        rw [uniqueDirs_apart] at hRuns
        exact .switched config other old hLoad hHeld hOld hStatus hRuns
      | aborted other old crashed engine reason hHeld hOld hCrashed hPhase hStopped hGiven
          hRecord =>
        obtain rfl := hIs hGiven
        exact .failed _ (.aborted _)
      | failed other old first e hHeld hOld hFlushed hTried hError hGiven hRestored =>
        obtain rfl := hIs hGiven
        exact .failed e (hAfter.candid.startError hTried.1 hError)

/-- **An application** ends in one of the ways. -/
theorem Applies.ends (h : s.Consistent) (hIdle : s.calls = [])
    (hApplies : s.Applies path moves result after) : s.ReloadEnds path moves result after := by
  have hCases := s.beginApply_cases path
  cases hApplies with
  | atOnce hBegin =>
    rw [hBegin] at hCases
    cases hCases with
    | unusable e hLoad => exact .untouched (.unusable e hLoad) (.atOnce s.log s.answers)
    | unchanged log hSame => exact .untouched (.unchanged hSame) (.atOnce log s.answers)
  | refused hBegin hLine hAnswer =>
    rw [hBegin] at hCases
    cases hCases with
    | changed config log hLoad hDiffer =>
      have hNoted := h.noted log
      have hUpdate : { s with log }.Completes (.update config.watch.uniqueDirs) [] [] _ :=
        .atOnce (hLine.trans hIdle.symm)
      exact hUpdate.reload_ends h hIdle hLoad (hNoted.step (.begin _)) hAnswer
  | updated hBegin run hAlone hCall hDone hAnswer =>
    rw [hBegin] at hCases
    cases hCases with
    | changed config log hLoad hDiffer =>
      have hNoted := h.noted log
      have hUpdate : { s with log }.Completes (.update config.watch.uniqueDirs) _ _ _ :=
        .inLine run hAlone hCall hDone
      exact hUpdate.reload_ends h hIdle hLoad
        (((hNoted.step (.begin _)).steps run).step (.call hCall)) hAnswer

/-! ## Applications end -/

/-- Numbers that are counted up past others are past all of them. -/
theorem lt_foldl_max (used : List Nat) : ∀ start : Nat,
    start ≤ used.foldl (fun free id => max free (id + 1)) start ∧
      ∀ id ∈ used, id < used.foldl (fun free id => max free (id + 1)) start := by
  -- by induction on the numbers, from any start: each of them moves it on
  induction used with
  | nil => simp
  | cons first rest ih =>
    intro start
    obtain ⟨hStart, hRest⟩ := ih (max start (first + 1))
    rw [List.foldl_cons]
    refine ⟨by omega, fun id hMem => ?_⟩
    rcases List.mem_cons.mp hMem with rfl | hMem
    · omega
    · exact hRest id hMem

/-- A call that is about to begin has not been answered. -/
theorem answerTo?_freshCall (s : Service) : s.answerTo? s.freshCall = none := by
  rw [answerTo?, List.lookup_eq_none_iff]
  intro given hGiven
  have hUsed : given.1 ∈ s.calls.map Call.id ++ s.answers.map Prod.fst :=
    List.mem_append_right _ (List.mem_map_of_mem hGiven)
  have hLt : given.1 < s.freshCall := (lt_foldl_max _ 0).2 _ hUsed
  exact bne_iff_ne.mpr (Nat.ne_of_gt hLt)

/-- Running on until an update is answered completes it. -/
theorem runUntilAnswered_completes (hTidy : s.Tidy) (hExclusive : s.Exclusive record)
    (hIdle : s.calls = []) (dirs : List Path) : ∃ moves lives,
      s.Completes (.update dirs) moves lives
        ((s.begin (.update dirs)).runUntilAnswered s.freshCall) := by
  have hBegin : Step s (.begin (.update dirs)) [] (s.begin (.update dirs)) := .begin _
  cases hValid : validateDirs s.disk dirs with
  | error why =>
    have hBegun := begin_invalid hValid
    have hLine := congrArg Service.calls hBegun
    have hDone : (s.begin (.update dirs)).runUntilAnswered s.freshCall =
        s.begin (.update dirs) :=
      runWhile_of_not _ (by simp [hBegun])
    rw [hDone]
    exact ⟨[], [], .atOnce hLine⟩
  | ok _ =>
    have hBegun := begin_update hValid
    have hCalls := congrArg Service.calls hBegun
    have hAnswers := congrArg Service.answers hBegun
    rw [hIdle] at hCalls
    obtain ⟨moves, lives, last, hRun, hAlone, hCall, hDone⟩ :=
      runUntilAnswered_answers (hTidy.step hBegin) (hExclusive.step hBegin) hCalls
        (hAnswers ▸ s.answerTo?_freshCall)
    exact ⟨moves ++ [.call], _, .inLine hRun hAlone hCall hDone⟩

/-- An update that is complete has been answered. -/
theorem Consistent.answered (h : s.Consistent) (hIdle : s.calls = [])
    (hUpdate : s.Completes (.update dirs) moves lives after) :
    ∃ answer, after.answerTo? s.freshCall = some answer := by
  obtain ⟨rounds, hWatched⟩ := h.watched
  obtain ⟨outcome, hEnds⟩ := hUpdate.ends h.tidy hWatched hIdle
  obtain ⟨answer, earlier, hAnswers⟩ := hEnds.answered
  exact ⟨answer, answerTo?_last hAnswers⟩

/-- An update that an application began answers it. -/
theorem Completes.applies (hIdle : s.calls = [])
    (hBegin : s.beginApply path =
      ({ s with log }.begin (.update dirs), .updating s.freshCall))
    (hUpdate : { s with log }.Completes (.update dirs) moves lives after)
    (hAnswer : after.answerTo? s.freshCall = some answer) :
    s.Applies path moves (reloaded answer) after := by
  cases hUpdate with
  | atOnce hLine => exact .refused hBegin (hLine.trans hIdle) hAnswer
  | inLine run hAlone hCall hDone => exact .updated hBegin run hAlone hCall hDone hAnswer

theorem apply_answered (hBegin : s.beginApply path = (after, .answered result)) :
    s.apply path = (after, result) := by
  rw [apply, hBegin]

theorem apply_updating (hBegin : s.beginApply path = (begun, .updating call))
    (hAnswer : (begun.runUntilAnswered call).answerTo? call = some answer) :
    s.apply path = (begun.runUntilAnswered call, reloaded answer) := by
  rw [apply, hBegin]
  cases answer <;> simp only [hAnswer] <;> rfl

/-- **The program's own way** of applying a file is one of those there are. -/
theorem applies_apply (h : s.Consistent) (hExclusive : s.Exclusive record) (hIdle : s.calls = [])
    (path : Path) : ∃ moves, s.Applies path moves (s.apply path).2 (s.apply path).1 := by
  have hCases := s.beginApply_cases path
  generalize hBegin : s.beginApply path = begun at hCases
  cases hCases with
  | unusable e hLoad =>
    rw [apply_answered hBegin]
    exact ⟨[], .atOnce hBegin⟩
  | unchanged log hSame =>
    rw [apply_answered hBegin]
    exact ⟨[], .atOnce hBegin⟩
  | changed config log hLoad hDiffer =>
    have hNoted := h.noted log
    obtain ⟨moves, lives, hUpdate⟩ := runUntilAnswered_completes hNoted.tidy
      (hExclusive.unchanged rfl rfl rfl) hIdle config.watch.uniqueDirs
    obtain ⟨answer, hAnswer⟩ := hNoted.answered hIdle hUpdate
    rw [apply_updating hBegin hAnswer]
    exact ⟨moves, hUpdate.applies hIdle hBegin hAnswer⟩

/-- **In a fair run** an application ends that has begun an update. -/
theorem FairRun.applies (fair : FairRun begun) (h : s.Consistent) (hIdle : s.calls = [])
    (hBegin : s.beginApply path = (begun, .updating call))
    (hAlone : ∀ t, (fair.move t).isBegin = false) :
    ∃ t result, s.Applies path ((List.range t).map fair.move) result (fair.state t) := by
  have hCases := s.beginApply_cases path
  rw [hBegin] at hCases
  cases hCases with
  | changed config log hLoad hDiffer =>
    have hNoted := h.noted log
    obtain ⟨t, lives, hUpdate⟩ := fair.completes hNoted.tidy hIdle hAlone
    obtain ⟨answer, hAnswer⟩ := hNoted.answered hIdle hUpdate
    exact ⟨t, _, hUpdate.applies hIdle hBegin hAnswer⟩

/-! ## The next one -/

/-- Without calls the slot and the status stay as they are. -/
theorem status_of_idle {t : Service} (run : Steps s moves lives t) (hIdle : s.calls = []) :
    (∀ move ∈ moves, move.isBegin = false) →
      t.calls = [] ∧ t.slot = s.slot ∧ t.status = s.status := by
  -- by induction on the run: only calls write them, and none gets in line
  induction run with
  | nil => exact fun _ => ⟨hIdle, rfl, rfl⟩
  | @snoc moves lives more move v after run hStep ih =>
    intro hAlone
    obtain ⟨hQuiet, hSlot, hStatus⟩ :=
      ih fun move hMove => hAlone move (List.mem_append_left _ hMove)
    have hBegin := hAlone move (by simp)
    cases hStep with
    | begin request => cases hBegin
    | call hCall =>
      obtain ⟨first, rest, hSome⟩ := exists_call hCall
      cases hQuiet.symm.trans hSome
    | session id hTask =>
      obtain ⟨a, b, -, -, hApart⟩ := stepSession_cases hTask
      exact ⟨hApart.calls.trans hQuiet, hApart.slot.trans hSlot, hApart.status.trans hStatus⟩
    | outside o =>
      have hUndergone := undergo_undergone v o
      exact ⟨hUndergone.calls.trans hQuiet, hUndergone.slot.trans hSlot,
        hUndergone.status.trans hStatus⟩

theorem Untouched.kept (h : s.Untouched moves after) (hIdle : s.calls = []) :
    after.slot = s.slot ∧ after.status = s.status := by
  cases h with
  | atOnce log answers => exact ⟨rfl, rfl⟩
  | inTurn log answers moves lives t hFree hAlone hRun => exact (status_of_idle hRun hIdle hAlone).2

/-- A file that was applied without an error is up to date. -/
theorem Applies.upToDate {changed : Bool} (h : s.Consistent) (hIdle : s.calls = [])
    (hApplies : s.Applies path moves (.ok changed) after) :
    ∃ config, Config.load s.disk path = .ok config ∧
      config.watch.uniqueDirs.map Path.components = after.status.dirs.map Path.components := by
  have hEnds := hApplies.ends h hIdle
  generalize hResult : Except.ok changed = result at hEnds
  cases hEnds with
  | untouched hWhy hSame =>
    cases hWhy with
    | unchanged hNow =>
      obtain ⟨config, hLoad, hDirs⟩ := hNow
      exact ⟨config, hLoad, (hSame.kept hIdle).2 ▸ hDirs⟩
    | unusable e hLoad => cases hResult
    | unwatchable config e hLoad hDirs => cases hResult
    | notRunning hFree => cases hResult
  | switched config id old hLoad hHeld hOld hShown hRuns =>
    exact ⟨config, hLoad, by rw [hRuns.status]⟩
  | failed e hError => cases hResult

/-! ## Main result -/

/--
**Reloads are safe, and idle once they are done.** Take any state that a controller can come to in
which no call is in progress, and a file of any contents, or none. However sessions and the world go
on while it is applied, as long as no call is begun:

* the answer is that nothing has changed exactly if the file can be used and lists what is shown,
  in the same order and component by component;
* the answer is that the directories were exchanged only if those of the file are watched then, each
  of them once, with the grace period of the session before;
* if the answer is that nothing has changed, that the file or its directories cannot be used or that
  no session is held, then so it is, and what is watched was left alone;
* after an answer that is no error the file is applied to no effect but on the log, for as long as
  it reads the same and no call is begun;
* there is an answer: in every fair run, and, if sessions are exclusive, when the program runs on by
  itself.
-/
theorem reload_is_safe_and_idempotent (hReach : s.Reachable) (hIdle : s.calls = [])
    (path : Path) :
    (∀ moves result after, s.Applies path moves result after →
      (result = .ok false ↔ s.UpToDate path) ∧
      (result = .ok true → ∃ config id old, Config.load s.disk path = .ok config ∧
        s.slot = some id ∧ s.session? id = some old ∧ s.status = old.running ∧
        after.Runs s.sessions.length config.watch.uniqueDirs old.grace) ∧
      (Harmless result → s.Spares path result ∧ s.Untouched moves after ∧
        after.slot = s.slot ∧ after.status = s.status) ∧
      ∀ changed, result = .ok changed → ∀ later lives t, Steps after later lives t →
        (∀ move ∈ later, move.isBegin = false) →
        Config.load t.disk path = Config.load s.disk path →
          ∃ log, t.apply path = ({ t with log }, .ok false)) ∧
    (s.UpToDate path → ∃ log, s.apply path = ({ s with log }, .ok false)) ∧
    (∀ begun call, s.beginApply path = (begun, .updating call) → ∀ fair : FairRun begun,
      (∀ t, (fair.move t).isBegin = false) →
        ∃ t result, s.Applies path ((List.range t).map fair.move) result (fair.state t)) ∧
    ∀ record, s.Exclusive record →
      ∃ moves, s.Applies path moves (s.apply path).2 (s.apply path).1 := by
  have h := hReach.consistent
  have hAtOnce {t : Service} (hSame : t.UpToDate path) :
      ∃ log, t.apply path = ({ t with log }, .ok false) := by
    obtain ⟨log, hBegin⟩ := hSame.beginApply_eq
    exact ⟨log, apply_answered hBegin⟩
  refine ⟨fun moves result after hApplies => ⟨hApplies.unchanged_iff, ?_, ?_, ?_⟩, hAtOnce,
    fun begun call hBegin fair hAlone => fair.applies h hIdle hBegin hAlone,
    fun record hExclusive => applies_apply h hExclusive hIdle path⟩
  · rintro rfl
    generalize hResult : Except.ok true = result at hApplies
    cases hApplies.ends h hIdle with
    | untouched hWhy hSame =>
      subst hResult
      cases hWhy
    | switched config id old hLoad hHeld hOld hShown hRuns =>
      exact ⟨config, id, old, hLoad, hHeld, hOld, hShown, hRuns⟩
    | failed e hError => cases hResult
  · intro hHarmless
    cases hApplies.ends h hIdle with
    | untouched hWhy hSame => exact ⟨hWhy, hSame, hSame.kept hIdle⟩
    | switched config id old hLoad hHeld hOld hShown hRuns => cases hHarmless
    | failed e hError =>
      -- no session reports an error of these kinds
      cases hHarmless <;> cases hError
  · rintro changed rfl later lives t hRun hAlone hRead
    obtain ⟨config, hLoad, hDirs⟩ := hApplies.upToDate h hIdle
    -- what is shown stays what the file was read as
    obtain ⟨-, -, hStatus⟩ := status_of_idle hRun (hApplies.idle hIdle) hAlone
    exact hAtOnce ⟨config, hRead.trans hLoad, hStatus ▸ hDirs⟩

/-- A controller over a disk with two directories and a configuration that lists one of them
twice. -/
def configured : Service :=
  { disk := ⟨[([.text "a"], .dir), ([.text "b"], .dir),
      ([.text "c"], .file (.text "\x7b\"watch\":\x7b\"dirs\":[\"b\",\"b/.\"]\x7d\x7d"))], []⟩ }

/-- A session over the other directory is started. -/
def otherStart : List Move :=
  [.begin (.start [⟨"a"⟩] 5), .call, .session 0, .session 0, .call]

/-- Applying the configuration exchanges the directories once, and leaves the grace period. -/
theorem sample_reload_switches_once :
    configured.Fresh ∧ ∃ s after : Service, ∃ lives moves log, Steps configured otherStart lives s ∧
      s.calls = [] ∧ s.Applies ⟨"c"⟩ moves (.ok true) after ∧ after.Runs 1 [⟨"b"⟩] 5 ∧
      after.apply ⟨"c"⟩ = ({ after with log }, .ok false) := by
  let s := otherStart.foldl perform configured
  have hFresh : configured.Fresh := ⟨⟨rfl, rfl, rfl⟩, rfl, rfl⟩
  have hRun : Steps configured otherStart (configured.record otherStart) s :=
    steps_of_possible (by decide +kernel)
  have hIdle : s.calls = [] := rfl
  have hResult : (s.apply ⟨"c"⟩).2 = .ok true := by decide +kernel
  have hDisk : (s.apply ⟨"c"⟩).1.disk = s.disk := by decide +kernel
  have hFile : (Config.load s.disk ⟨"c"⟩).toOption.map (·.watch.uniqueDirs) = some [⟨"b"⟩] := by
    decide +kernel
  have hSafe := reload_is_safe_and_idempotent ((Reachable.fresh hFresh).steps hRun) hIdle ⟨"c"⟩
  obtain ⟨hEach, -, -, hOwn⟩ := hSafe
  obtain ⟨moves, hApplies⟩ := hOwn _ (hRun.exclusive hFresh.toUnused)
  rw [hResult] at hApplies
  obtain ⟨-, hSwitched, -, hNext⟩ := hEach _ _ _ hApplies
  obtain ⟨config, id, old, hLoad, -, -, hShown, hRuns⟩ := hSwitched rfl
  obtain ⟨log, hAgain⟩ := hNext true rfl [] [] _ .nil (by simp) (by rw [hDisk])
  have hDirs : config.watch.uniqueDirs = [⟨"b"⟩] := by
    rw [hLoad] at hFile
    exact Option.some.inj hFile
  have hGrace : old.grace = 5 := (Option.some.inj (congrArg Status.grace hShown)).symm
  rw [hDirs, hGrace] at hRuns
  exact ⟨hFresh, s, _, _, moves, log, hRun, hIdle, hApplies, hRuns, hAgain⟩

end Service

end TreeWatch
