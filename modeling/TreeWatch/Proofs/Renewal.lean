import TreeWatch.Proofs.Exclusivity
import TreeWatch.Proofs.Sessions

/-!
# Starting afresh

A controller whose sessions are over behaves like one that never had any. `Service.since n` is the
service without its first `n` sessions, the others numbered from zero; everything else, the disk,
the status, the calls, the answers and the log, is as it was. Whatever a service can do from a
moment on at which its first `n` sessions are over, the service without them can do, and the other
way round.

Main results:
  * `stepCall_since`, `stepSession_since`, `undergo_since`: every move comes to the same
  * `Steps.since`, `Steps.of_since`: so does every run
  * `since_fresh`: without a session and without calls, what is left is a fresh controller
-/

namespace TreeWatch

/-! ## Renumbering -/

/-- The stage, without the first `n` sessions. -/
def Stage.since (n : Nat) : Stage → Stage
  | .waiting request => .waiting request
  | .joining id next => .joining (id - n) next
  | .starting id next => .starting (id - n) next

/-- The call, without the first `n` sessions. -/
def Call.since (n : Nat) (call : Call) : Call :=
  { call with stage := call.stage.since n }

/-- The move, without the first `n` sessions. -/
def Move.since (n : Nat) : Move → Move
  | .session id => .session (id - n)
  | move => move

/-- The move, with `n` sessions before the others. -/
def Move.after (n : Nat) : Move → Move
  | .session id => .session (n + id)
  | move => move

/-- The entry of the record, without the first `n` sessions. -/
def Life.since (n : Nat) : Life → Life
  | .granted call request => .granted call request
  | .spawned id => .spawned (id - n)
  | .acted id => .acted (id - n)
  | .ended id => .ended (id - n)
  | .joined id => .joined (id - n)

namespace Service

/-- The service without its first `n` sessions. -/
def since (n : Nat) (s : Service) : Service :=
  { s with
    slot := s.slot.map (· - n)
    sessions := s.sessions.drop n
    calls := s.calls.map (Call.since n)
    sink := s.sink.bind fun id => if id < n then none else some (id - n) }

/-- The first `n` sessions are over, and nobody refers to them any more. -/
structure Past (n : Nat) (s : Service) : Prop where
  known : n ≤ s.sessions.length
  ended : ∀ id session, id < n → s.session? id = some session → session.isLive = false
  slot : ∀ id, s.slot = some id → n ≤ id
  awaited : ∀ call ∈ s.calls, ∀ id, call.stage.awaited? = some id → n ≤ id

variable {s s₀ after : Service} {n id : Nat} {moves : List Move} {lives more : List Life}
  {move : Move}

theorem session?_since (s : Service) (n id : Nat) :
    (s.since n).session? id = s.session? (n + id) :=
  List.getElem?_drop

theorem session?_since_sub (hPast : n ≤ id) :
    (s.since n).session? (id - n) = s.session? id := by
  rw [session?_since, Nat.add_sub_of_le hPast]

theorem modifySession_since (hPast : n ≤ id) (f : Session → Session) :
    (s.modifySession id f).since n = (s.since n).modifySession (id - n) f :=
  congrArg (fun sessions => { s.since n with sessions })
    (List.drop_modify_of_ge f id n s.sessions hPast)

theorem modifySession_since_of_lt (hPast : id < n) (f : Session → Session) :
    (s.modifySession id f).since n = s.since n :=
  congrArg (fun sessions => { s.since n with sessions })
    (List.drop_modify_of_lt f id n s.sessions hPast)

/-! ## Calls -/

theorem answer_since (s : Service) (result : Except WatchError Unit) :
    (s.answer result).since n = (s.since n).answer result := by
  unfold answer
  cases hCalls : s.calls with
  | nil => simp [since, hCalls]
  | cons call rest => simp [since, hCalls, Call.since]

theorem enter_since (s : Service) (stage : Stage) :
    (s.enter stage).since n = (s.since n).enter (stage.since n) := by
  unfold enter
  cases hCalls : s.calls with
  | nil => simp [since, hCalls]
  | cons call rest => simp [since, hCalls, Call.since]

theorem launch_since (hKnown : n ≤ s.sessions.length) (dirs : List Path) (grace : UInt64)
    (next : AfterStart) :
    (s.launch dirs grace next).since n = (s.since n).launch dirs grace next := by
  unfold launch
  by_cases hDirs : dirs = []
  · rw [if_pos hDirs, if_pos hDirs]
    cases next with
    | answer | orRestore previous grace => exact answer_since s _
    | restored e => exact answer_since (s.note .controller _) _
  · rw [if_neg hDirs, if_neg hDirs]
    dsimp only
    rw [enter_since]
    -- the session that is started comes behind all others, and its number is `n` less
    have hSessions (fresh : Session) :
        (s.sessions ++ [fresh]).drop n = s.sessions.drop n ++ [fresh] :=
      List.drop_append_of_le_length hKnown
    simp only [since, setState, setStatus, note, hSessions, Stage.since, List.length_drop]

theorem startSucceeded_since (s : Service) (id : Nat) (session : Session) (next : AfterStart) :
    (s.startSucceeded id session next).since n =
      (s.since n).startSucceeded (id - n) session next := by
  cases next with
  | answer | orRestore previous grace => exact answer_since _ _
  | restored e => exact answer_since _ _

theorem startFailed_since (hKnown : n ≤ s.sessions.length) (e : WatchError) (next : AfterStart) :
    (s.startFailed e next).since n = (s.since n).startFailed e next := by
  cases next with
  | answer => exact answer_since _ _
  | orRestore previous grace =>
    exact launch_since (s := s.setStopped.note .controller _) hKnown _ _ _
  | restored e => exact answer_since _ _

theorem endSession_since (hPast : n ≤ id) (next : Option Replacement) :
    (s.endSession id next).since n = (s.since n).endSession (id - n) next := by
  unfold endSession
  dsimp only
  rw [enter_since, modifySession_since hPast]
  rfl

theorem serve_since (h : s.Past n) (request : Request) :
    (s.serve request).since n = (s.since n).serve request := by
  unfold serve
  cases hSlot : s.slot with
  | none =>
    have hNone : (s.since n).slot = none := by simp [since, hSlot]
    rw [hNone]
    cases request with
    | start dirs grace => exact launch_since h.known _ _ _
    | stop | update dirs => exact answer_since s _
  | some id =>
    have hSome : (s.since n).slot = some (id - n) := by simp [since, hSlot]
    have hPast := h.slot id hSlot
    rw [hSome]
    cases request with
    | start dirs grace => exact answer_since s _
    | stop => exact endSession_since hPast none
    | update dirs =>
      dsimp only
      rw [session?_since_sub hPast]
      cases s.session? id with
      | none => exact answer_since s _
      | some session => exact endSession_since (s := s.note .controller _) hPast _

theorem sessionEnded_since (hKnown : n ≤ s.sessions.length) (session : Session)
    (crash : Option String) (next : Option Replacement) :
    (s.sessionEnded session crash next).since n = (s.since n).sessionEnded session crash next := by
  cases crash with
  | some reason => exact answer_since _ _
  | none =>
    cases next with
    | none => exact answer_since _ _
    | some r => exact launch_since (s := s.setStopped.note .controller _) hKnown _ _ _

/-- **A step of a call** is the same without sessions that are over. -/
theorem stepCall_since (h : s.Past n) : (s.since n).stepCall = s.stepCall.map (since n) := by
  unfold stepCall
  cases hCalls : s.calls with
  | nil => simp [since, hCalls]
  | cons call rest =>
    have hLine : (s.since n).calls = call.since n :: rest.map (Call.since n) := by
      simp [since, hCalls]
    -- whichever session the call waits for, it is one of those that are left
    have hAwaited := h.awaited call (hCalls ▸ List.mem_cons_self)
    rw [hLine]
    unfold Call.since
    dsimp only
    cases hStage : call.stage with
    | waiting request => exact congrArg some (serve_since h request).symm
    | joining id next =>
      have hPast := hAwaited id (by rw [hStage]; rfl)
      simp only [Stage.since, session?_since_sub hPast]
      cases s.session? id with
      | none => rfl
      | some session =>
        dsimp only
        cases session.phase with
        | finished engine crash => exact congrArg some (sessionEnded_since h.known _ _ _).symm
        | connecting | registering c | watching c => rfl
    | starting id next =>
      have hPast := hAwaited id (by rw [hStage]; rfl)
      simp only [Stage.since, session?_since_sub hPast]
      cases s.session? id with
      | none => rfl
      | some session =>
        dsimp only
        split
        · exact congrArg some (startSucceeded_since s id session next).symm
        · exact congrArg some (startFailed_since h.known _ _).symm
        · exact congrArg some (startFailed_since h.known _ _).symm
        · exact congrArg some (startFailed_since h.known _ _).symm
        · rfl

/-! ## Sessions -/

theorem note_since (s : Service) (n : Nat) (scope : Scope) (notices : List Notice) :
    (s.note scope notices).since n = (s.since n).note scope notices :=
  rfl

theorem enterPhase_since (hPast : n ≤ id) (phase : Phase) :
    (s.enterPhase id phase).since n = (s.since n).enterPhase (id - n) phase :=
  modifySession_since hPast _

theorem report_since (hPast : n ≤ id) (ready : Except WatchError Unit) :
    (s.report id ready).since n = (s.since n).report (id - n) ready :=
  modifySession_since hPast _

theorem connect_since (hPast : n ≤ id) (session : Session) :
    (s.connect id session).since n = (s.since n).connect (id - n) session := by
  have hBackend : ((s.since n).contact .connected).backend = (s.contact .connected).backend := rfl
  unfold connect
  dsimp only
  rw [hBackend]
  split
  · exact enterPhase_since (s := { s.contact .connected with backend := _ }) hPast _
  · split
    · rw [enterPhase_since hPast, report_since hPast]
      rfl
    · -- messages go to this session from now on
      rw [enterPhase_since hPast]
      simp only [since, contact, Option.bind_some, if_neg (Nat.not_lt.mpr hPast)]
      rfl

theorem register_since (hPast : n ≤ id) (session : Session) (c : Coalescer) :
    (s.register id session c).since n = (s.since n).register (id - n) session c := by
  have hDisk : (s.since n).disk = s.disk := rfl
  unfold register
  dsimp only
  rw [hDisk]
  split
  · rw [enterPhase_since hPast, report_since hPast]
    rfl
  · rw [enterPhase_since hPast, report_since hPast]
    rfl
  · split
    · rw [enterPhase_since hPast]
      rfl
    · rw [note_since, enterPhase_since hPast, report_since hPast]
      rfl

theorem turned_since (hPast : n ≤ id) (session : Session) (t : Turn) :
    (s.turned id session t).since n = (s.since n).turned (id - n) session t := by
  unfold turned
  dsimp only
  split
  · rw [enterPhase_since hPast]
    rfl
  · rw [enterPhase_since hPast]
    rfl
  · rw [modifySession_since hPast]
    rfl

/-- **A step of a session** is the same without sessions that are over. -/
theorem stepSession_since (hPast : n ≤ id) :
    (s.since n).stepSession (id - n) = (s.stepSession id).map (since n) := by
  unfold stepSession
  rw [session?_since_sub hPast]
  cases s.session? id with
  | none => rfl
  | some session =>
    dsimp only
    cases session.phase with
    | connecting => exact congrArg some (connect_since hPast session).symm
    | registering c => exact congrArg some (register_since hPast session c).symm
    | watching c =>
      rw [Option.map_map]
      exact Option.map_congr fun t _ => (turned_since hPast session t).symm
    | finished engine crash => rfl

/-- Sessions that are over make no steps. -/
theorem Past.of_stepSession (h : s.Past n) (hTask : s.stepSession id = some after) : n ≤ id := by
  by_contra hBefore
  obtain ⟨⟨session, hSession, hLive⟩, -⟩ := stepSession_effect hTask
  have hOver := h.ended id session (Nat.not_le.mp hBefore) hSession
  rw [hLive] at hOver
  cases hOver

/-! ## The world -/

theorem deliver_since (h : s.Past n) (message : Message) :
    ((s.since n).deliver message).1 = (s.deliver message).1.since n := by
  unfold deliver
  cases hSink : s.sink with
  | none => simp [since, hSink]
  | some id =>
    by_cases hBefore : id < n
    · -- a session that is over hears nothing, and neither does one that is not there
      have hNone : (s.since n).sink = none := by simp [since, hSink, hBefore]
      rw [hNone]
      cases hSession : s.session? id with
      | none => simp [hSession]
      | some session => simp [hSession, h.ended id session hBefore hSession]
    · have hPast : n ≤ id := Nat.not_lt.mp hBefore
      have hSome : (s.since n).sink = some (id - n) := by simp [since, hSink, hBefore]
      rw [hSome]
      dsimp only
      rw [session?_since_sub hPast]
      cases s.session? id with
      | none => rfl
      | some session =>
        dsimp only
        split
        · exact (modifySession_since hPast _).symm
        · rfl

theorem closeChannel_since (s : Service) (n : Nat) :
    (s.since n).closeChannel.1 = s.closeChannel.1.since n := by
  unfold closeChannel
  cases hSink : s.sink with
  | none => simp [since, hSink]
  | some id =>
    by_cases hBefore : id < n
    · have hNone : (s.since n).sink = none := by simp [since, hSink, hBefore]
      rw [hNone]
      dsimp only
      rw [modifySession_since_of_lt hBefore]
      simp [since, hSink, hBefore]
    · have hPast : n ≤ id := Nat.not_lt.mp hBefore
      have hSome : (s.since n).sink = some (id - n) := by simp [since, hSink, hBefore]
      rw [hSome]
      dsimp only
      rw [modifySession_since hPast]
      rfl

theorem withRules_since (s : Service) (n : Nat) (rules : Rules) :
    (s.since n).withRules rules = (s.withRules rules).since n := by
  simp only [withRules, since, List.map_drop]

theorem reportChanges_since (s : Service) (n : Nat) (before : Disk) :
    (s.since n).reportChanges before = (s.reportChanges before).since n := by
  have hBackend : (s.since n).backend = s.backend := rfl
  unfold reportChanges
  rw [hBackend]
  split
  · simp only [since, List.map_drop]
  · rfl

theorem touchReloader_since (s : Service) (n : Nat) (touched : Path → Bool) :
    (s.since n).touchReloader touched = (s.touchReloader touched).since n := by
  have hReloader : (s.since n).reloader = s.reloader := rfl
  unfold touchReloader
  rw [hReloader]
  cases s.reloader with
  | none => rfl
  | some r =>
    dsimp only
    split <;> rfl

/-- **The world** does the same without sessions that are over. -/
theorem undergo_since (h : s.Past n) (o : Outside) :
    (s.since n).undergo o = (s.undergo o).since n := by
  cases o with
  | deliver message => exact deliver_since h message
  | closeChannel => exact closeChannel_since s n
  | rules rules => exact withRules_since s n rules
  | backend backend | clock now | hazard hazard => rfl
  | edit edit =>
    let edited := { s with disk := s.disk.edit edit }
    have hReport := reportChanges_since edited n s.disk
    have hTouch := touchReloader_since (edited.reportChanges s.disk) n fun path =>
      touches s.disk path edit || touches (edited.reportChanges s.disk).disk path edit
    show ((edited.since n).reportChanges s.disk).touchReloader (fun path =>
      touches s.disk path edit ||
        touches ((edited.since n).reportChanges s.disk).disk path edit) = _
    rw [hReport]
    exact hTouch
  | observe disk =>
    let seen := { s with disk }
    have hReport := reportChanges_since seen n s.disk
    have hTouch := touchReloader_since (seen.reportChanges s.disk) n fun path =>
      (s.disk.stat path.native).toOption ≠ (disk.stat path.native).toOption
    show ((seen.since n).reportChanges s.disk).touchReloader (fun path =>
      (s.disk.stat path.native).toOption ≠ (disk.stat path.native).toOption) = _
    rw [hReport]
    exact hTouch

theorem begin_since (s : Service) (n : Nat) (request : Request) :
    (s.since n).begin request = (s.begin request).since n := by
  have hFree : (s.since n).freshCall = s.freshCall := by
    have hIds : (s.since n).calls.map Call.id = s.calls.map Call.id := by
      simp only [since, List.map_map]
      rfl
    unfold freshCall
    rw [hIds]
    rfl
  have hQueued (request : Request) :
      ((s.since n).enqueue request).1 = (s.enqueue request).1.since n := by
    simp only [enqueue, hFree]
    simp only [since, List.map_append, List.map_cons, List.map_nil]
    rfl
  cases request with
  | start dirs grace => exact hQueued _
  | stop => exact hQueued _
  | update dirs =>
    show ((s.since n).beginUpdate dirs).1 = (s.beginUpdate dirs).1.since n
    have hDisk : (s.since n).disk = s.disk := rfl
    unfold beginUpdate
    rw [hDisk, hFree]
    cases validateDirs s.disk dirs with
    | error e => rfl
    | ok _ => exact hQueued _

/-! ## Runs -/

theorem awaited?_since (s : Service) (n : Nat) :
    (s.since n).awaited? = s.awaited?.map (· - n) := by
  unfold awaited?
  cases hCalls : s.calls with
  | nil => simp [since, hCalls]
  | cons call rest =>
    obtain ⟨number, stage⟩ := call
    cases stage <;> simp [since, hCalls, Call.since, Stage.since]

theorem Past.awaited? (h : s.Past n) (hAwaited : s.awaited? = some id) : n ≤ id := by
  cases hCalls : s.calls with
  | nil => simp [Service.awaited?, hCalls] at hAwaited
  | cons call rest =>
    rw [awaited?_head hCalls] at hAwaited
    exact h.awaited call (hCalls ▸ List.mem_cons_self) id hAwaited

/-- Nobody comes to refer to sessions that are over. -/
theorem Past.call (h : s.Past n) (hEffect : CallEffect s after) :
    (∀ id, after.slot = some id → n ≤ id) ∧
      ∀ call ∈ after.calls, ∀ id, call.stage.awaited? = some id → n ≤ id := by
  -- of the calls afterwards only the first one may wait for something else than before
  have hLine {call : Call} {rest : List Call} (hCalls : s.calls = call :: rest) :
      ∀ other ∈ rest, ∀ id, other.stage.awaited? = some id → n ≤ id := fun other hOther =>
    h.awaited other (hCalls ▸ List.mem_cons_of_mem _ hOther)
  have hMoved {call moved : Call} {rest : List Call} (hCalls : s.calls = call :: rest)
      (hHere : ∀ id, moved.stage.awaited? = some id → n ≤ id) :
      ∀ other ∈ moved :: rest, ∀ id, other.stage.awaited? = some id → n ≤ id := by
    intro other hOther
    rcases List.mem_cons.mp hOther with rfl | hRest
    · exact hHere
    · exact hLine hCalls other hRest
  cases hEffect with
  | answered call rest request hCalls hStage hLine' hSlot hSessions =>
    rw [hLine', hSlot]
    exact ⟨h.slot, hLine hCalls⟩
  | launched call rest request next fresh hCalls hStage hEmpty hLine' hSlot hSessions hFresh =>
    rw [hLine', hSlot]
    refine ⟨fun id hHeld => (by cases hHeld), hMoved hCalls fun id hAwaited => ?_⟩
    cases hAwaited
    exact h.known
  | ending call rest request id next hCalls hStage hHeld hLine' hSlot hSessions =>
    rw [hLine', hSlot]
    refine ⟨fun id hHeld => (by cases hHeld), hMoved hCalls fun other hAwaited => ?_⟩
    cases hAwaited
    exact h.slot id hHeld
  | started call rest id next hCalls hStage hLine' hSlot hSessions =>
    rw [hLine', hSlot]
    refine ⟨fun other hHeld => ?_, hLine hCalls⟩
    cases hHeld
    exact h.awaited call (hCalls ▸ List.mem_cons_self) id (by rw [hStage]; rfl)
  | finished call rest id session hCalls hAwaited hSession hOver hLine' hSlot hSessions =>
    rw [hLine', hSlot]
    exact ⟨h.slot, hLine hCalls⟩
  | relaunched call rest id session next fresh hCalls hAwaited hSession hOver hLine' hSlot hSessions
      hFresh =>
    rw [hLine', hSlot]
    refine ⟨h.slot, hMoved hCalls fun other hAwaited => ?_⟩
    cases hAwaited
    exact h.known

theorem Past.refers (h : s.Past n) (hStep : Step s move more after) :
    (∀ id, after.slot = some id → n ≤ id) ∧
      ∀ call ∈ after.calls, ∀ id, call.stage.awaited? = some id → n ≤ id := by
  cases hStep with
  | begin request =>
    rcases begin_effect s request with ⟨-, hBegun⟩ | ⟨dirs, e, -, -, hBegun⟩
    · rw [hBegun]
      refine ⟨h.slot, fun call hCall => ?_⟩
      rcases List.mem_append.mp hCall with hKnown | hNew
      · exact h.awaited call hKnown
      · rw [List.mem_singleton.mp hNew]
        exact fun id hAwaited => by cases hAwaited
    · rw [hBegun]
      exact ⟨h.slot, h.awaited⟩
  | call hCall => exact h.call (stepCall_effect hCall)
  | session id hTask =>
    have hEffect := stepSession_effect hTask
    rw [hEffect.slot, hEffect.calls]
    exact ⟨h.slot, h.awaited⟩
  | outside o =>
    have hUndergone := undergo_undergone s o
    rw [hUndergone.slot, hUndergone.calls]
    exact ⟨h.slot, h.awaited⟩

/-- Sessions that are over stay over, and nobody comes to refer to them. -/
theorem Past.step (h : s.Past n) (hTidy : s.Tidy) (hStep : Step s move more after) :
    after.Past n := by
  obtain ⟨hSlot, hAwaited⟩ := h.refers hStep
  -- the first sessions are still there
  have hKept : ∀ id < n, ∃ a b, s.session? id = some a ∧ after.session? id = some b ∧
      a.Evolves b := by
    intro id hBefore
    have hLt : id < s.sessions.length := Nat.lt_of_lt_of_le hBefore h.known
    have hSession : s.session? id = some s.sessions[id] := List.getElem?_eq_getElem hLt
    obtain ⟨b, hb, hEvolves⟩ := hTidy.evolves hStep hSession
    exact ⟨_, b, hSession, hb, hEvolves⟩
  refine ⟨?_, ?_, hSlot, hAwaited⟩
  · by_contra hFew
    obtain ⟨-, b, -, hb, -⟩ := hKept after.sessions.length (Nat.not_le.mp hFew)
    have hLt := (List.getElem?_eq_some_iff.mp hb).1
    exact Nat.lt_irrefl _ hLt
  · intro id b hBefore hb
    obtain ⟨a, b', ha, hb', hEvolves⟩ := hKept id hBefore
    obtain rfl : b = b' := Option.some.inj (hb.symm.trans hb')
    have hOver := h.ended id a hBefore ha
    rwa [Session.isLive, (hEvolves.ended hOver).1]

/-- Who is not in the slot afterwards is so without the first sessions, too. -/
theorem filter_slot_since {ids slot : Option Nat} (hIds : ∀ id, ids = some id → n ≤ id)
    (hSlot : ∀ id, slot = some id → n ≤ id) :
    ((ids.map (· - n)).toList.filter fun id => slot.map (· - n) ≠ some id) =
      (ids.toList.filter fun id => slot ≠ some id).map (· - n) := by
  cases ids with
  | none => rfl
  | some id =>
    cases slot with
    | none => simp
    | some held =>
      have hId := hIds id rfl
      have hHeld := hSlot held rfl
      by_cases hHere : held = id
      · simp [hHere]
      · have hApart : held - n ≠ id - n := by omega
        simp [hHere, hApart]

/-- The record of a step of a call, without the first sessions. -/
theorem livesOfCall_since (h : s.Past n) (hAfter : after.Past n) :
    livesOfCall (s.since n) (after.since n) = (livesOfCall s after).map (Life.since n) := by
  have hGrants : (s.since n).grants = s.grants.map (Life.since n) := by
    unfold grants
    cases hCalls : s.calls with
    | nil => simp [since, hCalls]
    | cons call rest =>
      obtain ⟨number, stage⟩ := call
      cases stage <;> simp [since, hCalls, Call.since, Stage.since, Life.since]
  have hLength : (s.since n).sessions.length < (after.since n).sessions.length ↔
      s.sessions.length < after.sessions.length := by
    have hKnown := h.known
    have hStill := hAfter.known
    simp only [since, List.length_drop]
    omega
  unfold livesOfCall
  rw [hGrants, awaited?_since, show (after.since n).slot = after.slot.map (· - n) from rfl,
    show (s.since n).slot = s.slot.map (· - n) from rfl,
    filter_slot_since (fun id hAwaited => h.awaited? hAwaited) hAfter.slot,
    filter_slot_since h.slot hAfter.slot]
  simp only [hLength, List.map_append, List.map_map]
  congr 1
  split
  · simp [since, Life.since]
  · rfl

/-- **Whatever a service does**, it does without sessions that are over. -/
theorem Step.since (h : s.Past n) (hTidy : s.Tidy) (hStep : Step s move more after) :
    Step (s.since n) (move.since n) (more.map (Life.since n)) (after.since n) := by
  have hAfter := h.step hTidy hStep
  cases hStep with
  | begin request =>
    rw [← begin_since]
    exact .begin request
  | call hCall =>
    rw [← livesOfCall_since h hAfter]
    refine .call ?_
    rw [stepCall_since h, hCall]
    rfl
  | session id hTask =>
    refine .session (id - n) ?_
    rw [stepSession_since (h.of_stepSession hTask), hTask]
    rfl
  | outside o =>
    rw [← undergo_since h]
    exact .outside o

/-- And the other way round. -/
theorem Step.of_since {sparse : Service} (h : s.Past n) (hTidy : s.Tidy)
    (hStep : Step (s.since n) move more sparse) :
    ∃ lives after, Step s (move.after n) lives after ∧ after.since n = sparse ∧
      lives.map (Life.since n) = more := by
  cases hStep with
  | begin request => exact ⟨[], _, .begin request, (begin_since s n request).symm, rfl⟩
  | call hCall =>
    rw [stepCall_since h, Option.map_eq_some_iff] at hCall
    obtain ⟨after, hCall, rfl⟩ := hCall
    exact ⟨_, after, .call hCall, rfl, (livesOfCall_since h (h.step hTidy (.call hCall))).symm⟩
  | session id hTask =>
    rw [show id = n + id - n from (Nat.add_sub_cancel_left n id).symm,
      stepSession_since (Nat.le_add_right n id), Option.map_eq_some_iff] at hTask
    obtain ⟨after, hTask, rfl⟩ := hTask
    refine ⟨_, after, .session (n + id) hTask, rfl, ?_⟩
    simp [Life.since]
  | outside o => exact ⟨[], _, .outside o, (undergo_since h o).symm, rfl⟩

/-- **Every run** from a moment on at which sessions are over is one without them. -/
theorem Steps.since (h : s₀.Past n) (hTidy : s₀.Tidy) (run : Steps s₀ moves lives s) :
    s.Past n ∧
      Steps (s₀.since n) (moves.map (Move.since n)) (lives.map (Life.since n)) (s.since n) := by
  induction run with
  | nil => exact ⟨h, .nil⟩
  | snoc run hStep ih =>
    obtain ⟨hPast, hSparse⟩ := ih
    rw [List.map_append, List.map_append]
    exact ⟨hPast.step (run.tidy hTidy) hStep, hSparse.snoc (hStep.since hPast (run.tidy hTidy))⟩

/-- **Every run** without them is one from that moment on. -/
theorem Steps.of_since {sparse : Service} (h : s₀.Past n) (hTidy : s₀.Tidy)
    (run : Steps (s₀.since n) moves lives sparse) :
    ∃ more s, Steps s₀ (moves.map (Move.after n)) more s ∧ s.Past n ∧ s.since n = sparse ∧
      more.map (Life.since n) = lives := by
  induction run with
  | nil => exact ⟨[], s₀, .nil, h, rfl, rfl⟩
  | snoc run hStep ih =>
    obtain ⟨more, s, hRun, hPast, rfl, rfl⟩ := ih
    obtain ⟨next, after, hFull, rfl, rfl⟩ := hStep.of_since hPast (hRun.tidy hTidy)
    rw [List.map_append]
    exact ⟨more ++ next, after, hRun.snoc hFull, hPast.step (hRun.tidy hTidy) hFull, rfl,
      List.map_append⟩

/-! ## Nothing is left -/

/-- Without calls and without a session that is held, all sessions are over, and a controller that
shows so is fresh without them. -/
theorem since_fresh (hTidy : s.Tidy) (hExclusive : s.Exclusive lives) (hCalls : s.calls = [])
    (hSlot : s.slot = none) (hStatus : s.status = {}) :
    s.Past s.sessions.length ∧ (s.since s.sessions.length).Fresh := by
  have hNone : s.current? = none := by simp [current?, awaited?, hCalls, hSlot]
  have hOver := hExclusive.allOver_of_none hNone
  refine ⟨⟨Nat.le_refl _, fun id session _ hSession => hOver id session hSession, ?_, ?_⟩, ?_⟩
  · intro id hHeld
    rw [hSlot] at hHeld
    cases hHeld
  · intro call hCall
    rw [hCalls] at hCall
    cases hCall
  · refine ⟨⟨?_, ?_, ?_⟩, hStatus, ?_⟩
    · simp [since, hCalls]
    · simp [since]
    · simp [since, hSlot]
    · cases hSink : s.sink with
      | none => simp [since, hSink]
      | some id =>
        obtain ⟨session, hSession, -⟩ := hTidy.sink id hSink
        have hLt := (List.getElem?_eq_some_iff.mp hSession).1
        simp [since, hSink, hLt]

end Service

end TreeWatch
