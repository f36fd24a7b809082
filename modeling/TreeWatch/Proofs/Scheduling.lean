import TreeWatch.Proofs.Updates

/-!
# Running until a call is answered

`Service.step` is one way of making moves: the call that holds the lock goes on if it can, and
otherwise the first session that can. While a call is alone and sessions are exclusive, that is
always the move that brings its answer nearer, and a few of them are enough.

Main results:
  * `step_takes_turn`: the step that is made is the one whose turn it is
  * `runUntilAnswered_answers`: a call that is alone is answered within the fuel
-/

namespace TreeWatch

namespace Service

variable {s after : Service} {moves : List Move} {lives more record : List Life}
  {move : Move} {number : Nat} {stage : Stage} {id : SessionId} {request : Request}

/-- While the call with the lock cannot go on, only the session that it waits for can. -/
theorem only_awaited_steps (hTidy : s.Tidy) (hExclusive : s.Exclusive record)
    (hWaits : s.stepCall = none) (hCalls : s.calls ≠ [])
    (hTask : s.stepSession id = some after) : s.turnOf = .session id := by
  obtain ⟨first, rest, hCalls⟩ := List.exists_cons_of_ne_nil hCalls
  have hMet : ¬ s.Met first.stage := by
    rw [← stepCall_isSome hCalls, hWaits]
    simp
  obtain ⟨awaited, session, hAwaited, -, -⟩ :=
    exists_of_unmet hTidy (hCalls ▸ List.mem_cons_self) hMet
  have hHere : s.awaited? = some awaited := (awaited?_head hCalls).trans hAwaited
  -- a session that can make a step is the current one, and none is held while one is awaited
  obtain ⟨a, ha, hLive⟩ := (stepSession_effect hTask).live
  have hCurrent := hExclusive.running id a ha hLive
  have hSlot : s.slot = none := hExclusive.apart.resolve_right (by simp [hHere])
  obtain rfl : awaited = id := by simpa [current?, hSlot, hHere] using hCurrent
  exact turnOf_unmet hCalls hMet hAwaited

/-- **The step that is made** while there are calls is the one whose turn it is. -/
theorem step_takes_turn (hTidy : s.Tidy) (hExclusive : s.Exclusive record) (hCalls : s.calls ≠ []) :
    ∃ more after, s.step = some after ∧ Step s s.turnOf more after := by
  unfold step
  cases hCall : s.stepCall with
  | some after =>
    rw [turnOf, hCall, Option.isSome_some, if_pos rfl]
    exact ⟨_, after, rfl, .call hCall⟩
  | none =>
    have hEnabled := enabled_turnOf hTidy hCalls
    obtain ⟨first, rest, hLine⟩ := List.exists_cons_of_ne_nil hCalls
    have hMet : ¬ s.Met first.stage := by
      rw [← stepCall_isSome hLine, hCall]
      simp
    obtain ⟨id, session, hAwaited, hSession, -⟩ :=
      exists_of_unmet hTidy (hLine ▸ List.mem_cons_self) hMet
    rw [turnOf_unmet hLine hMet hAwaited] at hEnabled
    -- the session that is awaited is among those that are tried, and it is the only one that can
    have hSome : ((List.range s.sessions.length).findSome? s.stepSession).isSome = true := by
      rw [List.findSome?_isSome_iff]
      exact ⟨id, List.mem_range.mpr (List.getElem?_eq_some_iff.mp hSession).1, hEnabled⟩
    obtain ⟨after, hFound⟩ := Option.isSome_iff_exists.mp hSome
    obtain ⟨other, -, hTask⟩ := List.exists_of_findSome?_eq_some hFound
    rw [only_awaited_steps hTidy hExclusive hCall hCalls hTask]
    exact ⟨_, after, hFound, .session other hTask⟩

/-- Of a call that is alone the answer is what it is over with; until then no answers are given. -/
theorem answers_of_busy (hCalls : s.calls = [⟨number, stage⟩]) (hStep : Step s move more after)
    (hTask : move.isTask = true) (hBusy : after.calls ≠ []) : after.answers = s.answers := by
  cases hStep with
  | begin request | outside o => cases hTask
  | session id hTask =>
    obtain ⟨a, b, -, -, hApart⟩ := stepSession_cases hTask
    exact hApart.answers
  | call hCall =>
    cases stepCall_cases hCalls hCall with
    | refused request e log hStage hWhy hAfter => exact absurd (hAfter ▸ rfl) hBusy
    | launched dirs grace log hStage hFree hDirs hAfter => exact hAfter ▸ rfl
    | ending request id next log hStage hHeld hEnds hAfter => exact hAfter ▸ rfl
    | started id next session log hStage hSession hReady hAfter => exact absurd (hAfter ▸ rfl) hBusy
    | ended id session result log hAwaited hSession hVerdict hAfter =>
      exact absurd (hAfter ▸ rfl) hBusy
    | another id session dirs grace next log hAwaited hSession hDirs hAnother hAfter =>
      exact hAfter ▸ rfl

/-- A task begins no call. -/
theorem isBegin_of_isTask (h : move.isTask = true) : move.isBegin = false := by
  cases move with
  | begin request | outside o => cases h
  | call | session id => rfl

/-- A call that is alone stays so, or is answered. -/
theorem alone_after (hCalls : s.calls = [⟨number, stage⟩]) (hStep : Step s move more after)
    (hTask : move.isTask = true) (hHere : number ∈ after.calls.map Call.id) :
    ∃ next, after.calls = [⟨number, next⟩] := by
  have hOne : ∀ other ∈ [move], other.isBegin = false := by
    simpa using isBegin_of_isTask hTask
  have hShort := length_calls_le (Steps.snoc .nil hStep) hOne
  rw [hCalls] at hShort
  match hAfter : after.calls with
  | [] => simp [hAfter] at hHere
  | [⟨id, next⟩] =>
    obtain rfl : number = id := by simpa [hAfter] using hHere
    exact ⟨next, rfl⟩
  | _ :: _ :: _ => simp [hAfter] at hShort

/-- Whether a call has not been answered yet. -/
def unanswered (number : Nat) (s : Service) : Bool :=
  (s.answers.lookup number).isNone

/-- Nothing is done for a condition that does not hold. -/
theorem runWhile_of_not {condition : Service → Bool} (fuel : Nat) (h : condition s = false) :
    runWhile condition fuel s = s := by
  cases fuel with
  | zero => rfl
  | succ fuel => rw [runWhile, if_neg (by simp [h])]

/-- Running until a call that is alone is answered makes moves up to the one that answers it, if
there is fuel for as many steps as are to go. -/
theorem runWhile_answers (fuel : Nat) : ∀ {s : Service} {record : List Life} {stage : Stage},
    s.Tidy → s.Exclusive record → s.calls = [⟨number, stage⟩] →
    s.answers.lookup number = none → s.toGo number ≤ fuel →
    ∃ moves lives last, Steps s moves lives last ∧ (∀ move ∈ moves, move.isBegin = false) ∧
      last.stepCall = some (runWhile (unanswered number) fuel s) ∧
      (runWhile (unanswered number) fuel s).calls = [] := by
  -- by induction on the fuel: the next step answers the call or leaves less to go
  induction fuel with
  | zero =>
    intro s record stage hTidy hExclusive hCalls hNone hFuel
    have hPos := s.toGoAt_pos stage
    simp [toGo, upTo, hCalls] at hFuel
    omega
  | succ fuel ih =>
    intro s record stage hTidy hExclusive hCalls hNone hFuel
    have hBusy : s.calls ≠ [] := by simp [hCalls]
    obtain ⟨more, after, hNext, hStep⟩ := step_takes_turn hTidy hExclusive hBusy
    have hRun : runWhile (unanswered number) (fuel + 1) s =
        runWhile (unanswered number) fuel after := by
      rw [runWhile, if_pos (by rw [unanswered, hNone]; rfl), hNext]
    rw [hRun]
    rcases turn_taken hTidy hBusy hExclusive.line hStep number (by simp [hCalls]) with
      hAnswers | ⟨hHere, hLess⟩
    · obtain ⟨result, hAnswer⟩ := hAnswers.answer
      obtain ⟨first, hLine, -⟩ := hAnswers.line
      rw [runWhile_of_not fuel (by simp [unanswered, hAnswer])]
      rw [hCalls] at hLine
      exact ⟨[], [], s, .nil, by simp, hAnswers.step, (List.cons.inj hLine).2.symm⟩
    · obtain ⟨next, hAlone⟩ := alone_after hCalls hStep s.turnOf_isTask hHere
      have hKept := answers_of_busy hCalls hStep s.turnOf_isTask (by simp [hAlone])
      obtain ⟨moves, lives, last, hRest, hOthers, hCall, hDone⟩ :=
        ih (hTidy.step hStep) (hExclusive.step hStep) hAlone (hKept ▸ hNone) (by omega)
      refine ⟨[s.turnOf] ++ moves, _, last, (Steps.snoc .nil hStep).append hRest, ?_, hCall, hDone⟩
      intro move hMove
      rcases List.mem_append.mp hMove with hFirst | hLater
      · rw [List.mem_singleton.mp hFirst]
        exact isBegin_of_isTask s.turnOf_isTask
      · exact hOthers move hLater

/-- **A call that is alone** is answered within the fuel. -/
theorem runUntilAnswered_answers (hTidy : s.Tidy) (hExclusive : s.Exclusive record)
    (hCalls : s.calls = [⟨number, .waiting request⟩]) (hNone : s.answers.lookup number = none) :
    ∃ moves lives last, Steps s moves lives last ∧ (∀ move ∈ moves, move.isBegin = false) ∧
      last.stepCall = some (s.runUntilAnswered number) ∧
      (s.runUntilAnswered number).calls = [] := by
  refine runWhile_answers s.fuel hTidy hExclusive hCalls hNone ?_
  have hToGo : s.toGo number = 9 := by simp [toGo, upTo, hCalls, toGoAt_waiting]
  rw [hToGo, fuel]
  omega

end Service

end TreeWatch
