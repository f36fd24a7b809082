import TreeWatch.Proofs.Exclusivity

/-!
# One call at a time

Whatever calls do at once could as well have been done one call after the other, in the order in
which they obtained the lock: a call that waits for the lock touches nothing, and nothing depends
on it. `Serially` are the runs in which a call begins only when no other one is in progress.

Main results:
  * `Steps.serially`: every run leaves the same record as a serial one, and leads to the same
    service up to the calls that still wait for the lock
  * `sessions_exclusive_and_serial`: that, and what the record says of the sessions
-/

namespace TreeWatch

/-- Whether a call is begun. -/
def Move.isBegin : Move → Bool
  | .begin _ => true
  | _ => false

/-- Whether a call waits for the lock. -/
def Call.waits (call : Call) : Bool :=
  match call.stage with
  | .waiting _ => true
  | _ => false

namespace Service

/-- The service without the calls that wait for the lock. -/
def underway (s : Service) : Service :=
  { s with calls := s.calls.filter fun call => !call.waits }

/-- The service with other calls. -/
def withCalls (s : Service) (calls : List Call) : Service :=
  { s with calls }

/-- The service with more calls in line. -/
def lineUp (s : Service) (line : List Call) : Service :=
  s.withCalls (s.calls ++ line)

/-- A serial run: a call obtains the lock at once, since no other call is in progress. The
directories of an update are checked before; a refusal takes no lock. -/
inductive Serially (s₀ : Service) : List Move → List Life → Service → Prop where
  | nil : Serially s₀ [] [] s₀
  | take {moves : List Move} {lives : List Life} {s : Service} (call : Nat) (request : Request) :
      Serially s₀ moves lives s → s.calls = [] →
      Serially s₀ moves lives (s.withCalls [⟨call, .waiting request⟩])
  | refuse {moves : List Move} {lives : List Life} {s : Service} (call : Nat) (dirs : List Path)
      (e : ConfigError) :
      Serially s₀ moves lives s → validateDirs s.disk dirs = .error e →
      Serially s₀ moves lives { s with answers := (call, .error (.config e)) :: s.answers }
  | move {moves : List Move} {lives more : List Life} {move : Move} {s after : Service} :
      Serially s₀ moves lives s → move.isBegin = false → Step s move more after →
      Serially s₀ (moves ++ [move]) (lives ++ more) after

/-! ## Nobody depends on calls that wait -/

variable {s s₀ after : Service} {line : List Call}

theorem answer_lineUp (hCalls : s.calls ≠ []) (result : Except WatchError Unit) :
    (s.lineUp line).answer result = (s.answer result).lineUp line := by
  obtain ⟨call, rest, hCalls⟩ := List.exists_cons_of_ne_nil hCalls
  simp [answer, lineUp, withCalls, hCalls]

theorem enter_lineUp (hCalls : s.calls ≠ []) (stage : Stage) :
    (s.lineUp line).enter stage = (s.enter stage).lineUp line := by
  obtain ⟨call, rest, hCalls⟩ := List.exists_cons_of_ne_nil hCalls
  simp [enter, lineUp, withCalls, hCalls]

theorem launch_lineUp (hCalls : s.calls ≠ []) (dirs : List Path) (grace : UInt64)
    (next : AfterStart) :
    (s.lineUp line).launch dirs grace next = (s.launch dirs grace next).lineUp line := by
  unfold launch
  by_cases hDirs : dirs = []
  · rw [if_pos hDirs, if_pos hDirs]
    cases next with
    | answer => exact answer_lineUp hCalls _
    | orRestore previous grace => exact answer_lineUp hCalls _
    | restored e => exact answer_lineUp (s := s.note .controller _) hCalls _
  · rw [if_neg hDirs, if_neg hDirs]
    dsimp only
    exact enter_lineUp (s := { (s.setState .starting).note .controller _ with
      tasks := s.tasks + 1, sessions := s.sessions ++ [_] }) hCalls _

theorem startSucceeded_lineUp (hCalls : s.calls ≠ []) (id : SessionId) (session : Session)
    (next : AfterStart) :
    (s.lineUp line).startSucceeded id session next =
      (s.startSucceeded id session next).lineUp line := by
  cases next with
  | answer | orRestore previous grace =>
    exact answer_lineUp (s := ({ s with slot := some id }.setStatus _).note .controller _) hCalls _
  | restored e =>
    exact answer_lineUp
      (s := (({ s with slot := some id }.setStatus _).note .controller _).note .controller _)
      hCalls _

theorem startFailed_lineUp (hCalls : s.calls ≠ []) (error : WatchError) (next : AfterStart) :
    (s.lineUp line).startFailed error next = (s.startFailed error next).lineUp line := by
  cases next with
  | answer => exact answer_lineUp (s := s.setStopped) hCalls _
  | orRestore previous grace =>
    exact launch_lineUp (s := s.setStopped.note .controller _) hCalls _ _ _
  | restored e => exact answer_lineUp (s := s.setStopped.note .controller _) hCalls _

theorem endSession_lineUp (hCalls : s.calls ≠ []) (id : SessionId) (next : Option Replacement) :
    (s.lineUp line).endSession id next = (s.endSession id next).lineUp line := by
  let ending : Service := (({ s with slot := none }.setState .stopping).note .controller
    [.stopping]).modifySession id fun session => { session with cancelled := true }
  exact enter_lineUp (s := ending) hCalls (.joining id next)

theorem serve_lineUp (hCalls : s.calls ≠ []) (request : Request) :
    (s.lineUp line).serve request = (s.serve request).lineUp line := by
  have hSlot : (s.lineUp line).slot = s.slot := rfl
  unfold serve
  rw [hSlot]
  cases s.slot with
  | none =>
    cases request with
    | start dirs grace => exact launch_lineUp hCalls _ _ _
    | stop | update dirs => exact answer_lineUp hCalls _
  | some id =>
    cases request with
    | start dirs grace => exact answer_lineUp hCalls _
    | stop => exact endSession_lineUp hCalls _ _
    | update dirs =>
      have hSession : (s.lineUp line).session? id = s.session? id := rfl
      dsimp only
      rw [hSession]
      cases s.session? id with
      | none => exact answer_lineUp hCalls _
      | some session => exact endSession_lineUp (s := s.note .controller _) hCalls _ _

theorem sessionEnded_lineUp (hCalls : s.calls ≠ []) (session : Session) (crash : Option String)
    (next : Option Replacement) :
    (s.lineUp line).sessionEnded session crash next =
      (s.sessionEnded session crash next).lineUp line := by
  cases crash with
  | some reason => exact answer_lineUp (s := s.setStopped) hCalls _
  | none =>
    cases next with
    | none => exact answer_lineUp (s := s.setStopped.note .controller _) hCalls _
    | some r => exact launch_lineUp (s := s.setStopped.note .controller _) hCalls _ _ _

/-- **The call with the lock** does what it would do if nobody waited behind it. -/
theorem stepCall_lineUp (hCalls : s.calls ≠ []) :
    (s.lineUp line).stepCall = s.stepCall.map (·.lineUp line) := by
  obtain ⟨call, rest, hHead⟩ := List.exists_cons_of_ne_nil hCalls
  have hLine : (s.lineUp line).calls = call :: (rest ++ line) := by
    simp [lineUp, withCalls, hHead]
  have hSession : ∀ id, (s.lineUp line).session? id = s.session? id := fun _ => rfl
  unfold stepCall
  -- the first call is the same with and without others behind it
  rw [hHead, hLine]
  dsimp only
  cases call.stage with
  | waiting request => exact congrArg some (serve_lineUp hCalls request)
  | joining id next =>
    dsimp only
    rw [hSession]
    cases s.session? id with
    | none => rfl
    | some session =>
      dsimp only
      cases session.phase with
      | finished engine crash => exact congrArg some (sessionEnded_lineUp hCalls session crash next)
      | connecting | registering c | watching c => rfl
  | starting id next =>
    dsimp only
    rw [hSession]
    cases s.session? id with
    | none => rfl
    | some session =>
      dsimp only
      split
      · exact congrArg some (startSucceeded_lineUp hCalls id session next)
      · exact congrArg some (startFailed_lineUp hCalls _ next)
      · exact congrArg some (startFailed_lineUp hCalls _ next)
      · exact congrArg some (startFailed_lineUp hCalls _ next)
      · rfl

theorem connect_withCalls (s : Service) (calls : List Call) (id : SessionId) (session : Session) :
    (s.withCalls calls).connect id session = (s.connect id session).withCalls calls := by
  have hBackend : ((s.withCalls calls).contact .connected).backend =
      (s.contact .connected).backend := rfl
  unfold connect
  dsimp only
  rw [hBackend]
  split
  · rfl
  · split <;> rfl

theorem register_withCalls (s : Service) (calls : List Call) (id : SessionId) (session : Session)
    (c : Coalescer) :
    (s.withCalls calls).register id session c = (s.register id session c).withCalls calls := by
  have hDisk : (s.withCalls calls).disk = s.disk := rfl
  unfold register
  dsimp only
  rw [hDisk]
  split
  · rfl
  · rfl
  · split <;> rfl

theorem turned_withCalls (s : Service) (calls : List Call) (id : SessionId) (session : Session)
    (t : Turn) :
    (s.withCalls calls).turned id session t = (s.turned id session t).withCalls calls := by
  unfold turned
  dsimp only
  split <;> rfl

/-- **A session** does not look at the calls. -/
theorem stepSession_withCalls (s : Service) (calls : List Call) (id : SessionId) :
    (s.withCalls calls).stepSession id = (s.stepSession id).map (·.withCalls calls) := by
  have hSession : (s.withCalls calls).session? id = s.session? id := rfl
  unfold stepSession
  rw [hSession]
  cases s.session? id with
  | none => rfl
  | some session =>
    dsimp only
    cases session.phase with
    | connecting => exact congrArg some (connect_withCalls s calls id session)
    | registering c => exact congrArg some (register_withCalls s calls id session c)
    | watching c =>
      rw [Option.map_map]
      exact Option.map_congr fun t _ => turned_withCalls s calls id session t
    | finished engine crash => rfl

theorem reportChanges_withCalls (s : Service) (calls : List Call) (before : Disk) :
    (s.withCalls calls).reportChanges before = (s.reportChanges before).withCalls calls := by
  have hBackend : (s.withCalls calls).backend = s.backend := rfl
  unfold reportChanges
  rw [hBackend]
  split <;> rfl

theorem touchReloader_withCalls (s : Service) (calls : List Call) (touched : Path → Bool) :
    (s.withCalls calls).touchReloader touched = (s.touchReloader touched).withCalls calls := by
  have hReloader : (s.withCalls calls).reloader = s.reloader := rfl
  unfold touchReloader
  rw [hReloader]
  cases s.reloader with
  | none => rfl
  | some r =>
    dsimp only
    split <;> rfl

theorem deliver_withCalls (s : Service) (calls : List Call) (message : Message) :
    ((s.withCalls calls).deliver message).1 = (s.deliver message).1.withCalls calls := by
  have hSink : (s.withCalls calls).sink = s.sink := rfl
  unfold deliver
  rw [hSink]
  cases s.sink with
  | none => rfl
  | some id =>
    have hSession : (s.withCalls calls).session? id = s.session? id := rfl
    dsimp only
    rw [hSession]
    cases s.session? id with
    | none => rfl
    | some session =>
      dsimp only
      split <;> rfl

theorem closeChannel_withCalls (s : Service) (calls : List Call) :
    (s.withCalls calls).closeChannel.1 = s.closeChannel.1.withCalls calls := by
  have hSink : (s.withCalls calls).sink = s.sink := rfl
  unfold closeChannel
  rw [hSink]
  cases s.sink <;> rfl

/-- **The world** does not either. -/
theorem undergo_withCalls (s : Service) (calls : List Call) (o : Outside) :
    (s.withCalls calls).undergo o = (s.undergo o).withCalls calls := by
  cases o with
  | deliver message => exact deliver_withCalls s calls message
  | closeChannel => exact closeChannel_withCalls s calls
  | rules rules => rfl
  | backend backend => rfl
  | edit edit =>
    let edited := { s with disk := s.disk.edit edit }
    have hReport := reportChanges_withCalls edited calls s.disk
    have hTouch := touchReloader_withCalls (edited.reportChanges s.disk) calls fun path =>
      touches s.disk path edit || touches (edited.reportChanges s.disk).disk path edit
    show ((edited.withCalls calls).reportChanges s.disk).touchReloader (fun path =>
      touches s.disk path edit ||
        touches ((edited.withCalls calls).reportChanges s.disk).disk path edit) = _
    rw [hReport]
    exact hTouch
  | observe disk =>
    let seen := { s with disk }
    have hReport := reportChanges_withCalls seen calls s.disk
    have hTouch := touchReloader_withCalls (seen.reportChanges s.disk) calls fun path =>
      (s.disk.stat path.native).toOption ≠ (disk.stat path.native).toOption
    show ((seen.withCalls calls).reportChanges s.disk).touchReloader (fun path =>
      (s.disk.stat path.native).toOption ≠ (disk.stat path.native).toOption) = _
    rw [hReport]
    exact hTouch
  | clock now => rfl
  | hazard hazard => rfl

/-! ## The simulation -/

variable {moves : List Move} {lives more : List Life} {move : Move}

/-- A step of a call answers it, or leaves it waiting for something else than the lock. -/
theorem CallEffect.head (h : CallEffect s after) : ∃ call rest, s.calls = call :: rest ∧
    (after.calls = rest ∨ ∃ moved : Call, moved.waits = false ∧ after.calls = moved :: rest) := by
  cases h with
  | answered call rest request hCalls hStage hLine hSlot hSessions =>
    exact ⟨call, rest, hCalls, Or.inl hLine⟩
  | launched call rest request next fresh hCalls hStage hEmpty hLine hSlot hSessions hFresh =>
    exact ⟨call, rest, hCalls, Or.inr ⟨_, rfl, hLine⟩⟩
  | ending call rest request id next hCalls hStage hHeld hLine hSlot hSessions =>
    exact ⟨call, rest, hCalls, Or.inr ⟨_, rfl, hLine⟩⟩
  | started call rest id next hCalls hStage hLine hSlot hSessions =>
    exact ⟨call, rest, hCalls, Or.inl hLine⟩
  | finished call rest id session hCalls hAwaited hSession hOver hLine hSlot hSessions =>
    exact ⟨call, rest, hCalls, Or.inl hLine⟩
  | relaunched call rest id session next fresh hCalls hAwaited hSession hOver hLine hSlot hSessions
      hFresh =>
    exact ⟨call, rest, hCalls, Or.inr ⟨_, rfl, hLine⟩⟩

/-- Once a call obtained the lock, nothing of it waits for the lock any more. -/
theorem underway_of_alone {call : Call} {rest : List Call} (hCalls : s.calls = [call])
    (hStep : s.stepCall = some after) (hRest : ∀ call ∈ rest, call.waits = true) :
    (after.lineUp rest).underway = after := by
  have hFiltered : rest.filter (fun call => !call.waits) = [] :=
    List.filter_eq_nil_iff.mpr fun call hCall => by simp [hRest call hCall]
  -- the call is gone, or waits for a session
  have hAlone : after.calls.filter (fun call => !call.waits) = after.calls := by
    obtain ⟨first, others, hHead, hLine⟩ := (stepCall_effect hStep).head
    rw [hCalls] at hHead
    cases hHead
    rcases hLine with hLine | ⟨moved, hMoved, hLine⟩
    · rw [hLine, List.filter_nil]
    · rw [hLine]
      simp [hMoved]
  unfold underway lineUp withCalls
  rw [List.filter_append, hFiltered, List.append_nil, hAlone]

/-- What a step of a call adds to the record does not depend on those who wait. -/
theorem livesOfCall_lineUp (s after : Service) (line : List Call) (hCalls : s.calls ≠ []) :
    livesOfCall (s.lineUp line) (after.lineUp line) = livesOfCall s after := by
  obtain ⟨call, rest, hCalls⟩ := List.exists_cons_of_ne_nil hCalls
  have hAwaited : (s.lineUp line).awaited? = s.awaited? := by
    simp [awaited?, lineUp, withCalls, hCalls]
  have hGrants : (s.lineUp line).grants = s.grants := by
    obtain ⟨number, stage⟩ := call
    cases stage <;> simp [grants, lineUp, withCalls, hCalls]
  unfold livesOfCall
  rw [hAwaited, hGrants]
  rfl

/-- A call that begins waits, or is refused without the lock. -/
theorem Serially.begin (h : Serially s₀ moves lives s.underway) (request : Request) :
    Serially s₀ moves lives (s.begin request).underway := by
  rcases begin_effect s request with ⟨-, hBegun⟩ | ⟨dirs, e, -, hDirs, hBegun⟩
  · have hWaits : (⟨s.freshCall, .waiting request⟩ : Call).waits = true := rfl
    have hSame : (s.begin request).underway = s.underway := by
      rw [hBegun]
      unfold underway
      rw [List.filter_append]
      simp [hWaits]
    exact hSame ▸ h
  · exact hBegun ▸ h.refuse s.freshCall dirs e hDirs

/-- The first call holds the lock in the serial run, too, or can take it there. -/
theorem Serially.taken {call : Call} {rest : List Call} (h : Serially s₀ moves lives s.underway)
    (hCalls : s.calls = call :: rest) (hRest : ∀ other ∈ rest, other.waits = true) :
    Serially s₀ moves lives (s.withCalls [call]) := by
  have hFiltered : rest.filter (fun call => !call.waits) = [] :=
    List.filter_eq_nil_iff.mpr fun other hOther => by simp [hRest other hOther]
  have hHolder : call.waits = false → s.underway = s.withCalls [call] := by
    intro hCall
    simp [underway, withCalls, hCalls, hFiltered, hCall]
  obtain ⟨number, stage⟩ := call
  cases stage with
  | waiting request =>
    have hNobody : s.underway.calls = [] := by
      show s.calls.filter _ = []
      rw [hCalls, List.filter_cons, hFiltered]
      rfl
    exact h.take number request hNobody
  | joining id next | starting id next => exact hHolder rfl ▸ h

/-- A step of a call can be made by that call alone. -/
theorem Serially.call (h : Serially s₀ moves lives s.underway)
    (hLine : ∀ call ∈ s.calls.tail, ∃ request, call.stage = .waiting request)
    (hCall : s.stepCall = some after) :
    Serially s₀ (moves ++ [.call]) (lives ++ livesOfCall s after) after.underway := by
  cases hCalls : s.calls with
  | nil =>
    rw [stepCall, hCalls] at hCall
    cases hCall
  | cons call rest =>
    have hRest : ∀ other ∈ rest, other.waits = true := by
      intro other hOther
      obtain ⟨request, hStage⟩ := hLine other (by rw [hCalls]; exact hOther)
      simp [Call.waits, hStage]
    have hTaken := h.taken hCalls hRest
    -- the others stand in line behind the first call, and do not matter to it
    have hSplit : s = (s.withCalls [call]).lineUp rest := by
      simp [lineUp, withCalls, ← hCalls]
    rw [hSplit, stepCall_lineUp (by simp [withCalls]), Option.map_eq_some_iff] at hCall
    obtain ⟨alone, hAlone, rfl⟩ := hCall
    have hMore : livesOfCall s (alone.lineUp rest) = livesOfCall (s.withCalls [call]) alone := by
      have hSame := livesOfCall_lineUp (s.withCalls [call]) alone rest (by simp [withCalls])
      rwa [← hSplit] at hSame
    rw [underway_of_alone rfl hAlone hRest, hMore]
    exact hTaken.move rfl (.call hAlone)

/-- **Every move** can be made in the serial run as well, or is the beginning of a call that waits.
-/
theorem Serially.step (h : Serially s₀ moves lives s.underway)
    (hLine : ∀ call ∈ s.calls.tail, ∃ request, call.stage = .waiting request)
    (hStep : Step s move more after) :
    Serially s₀ (moves ++ [move].filter (!·.isBegin)) (lives ++ more) after.underway := by
  cases hStep with
  | begin request =>
    rw [show [Move.begin request].filter (!·.isBegin) = [] from rfl, List.append_nil,
      List.append_nil]
    exact h.begin request
  | call hCall => exact h.call hLine hCall
  | session id hSession =>
    -- the session makes the same step beside the calls that do not wait
    have hAlone := stepSession_withCalls s (s.calls.filter fun call => !call.waits) id
    rw [hSession, Option.map_some] at hAlone
    have hCalls : after.calls = s.calls := (stepSession_effect hSession).calls
    have hUnderway : after.underway =
        after.withCalls (s.calls.filter fun call => !call.waits) := by
      unfold underway withCalls
      rw [hCalls]
    exact hUnderway ▸ h.move rfl (.session id hAlone)
  | outside o =>
    -- and so does the world
    have hCalls : (s.undergo o).calls = s.calls := (undergo_effect s o).1
    have hUnderway : (s.undergo o).underway = s.underway.undergo o := by
      rw [show s.underway = s.withCalls (s.calls.filter fun call => !call.waits) from rfl,
        undergo_withCalls, ← hCalls]
      rfl
    exact hUnderway ▸ h.move rfl (.outside o)

/-- **Every run** leaves the record of a serial one, and leads to the same service up to the calls
that wait for the lock. -/
theorem Steps.serially (run : Steps s₀ moves lives s) (hUnused : s₀.Unused) :
    Serially s₀ (moves.filter (!·.isBegin)) lives s.underway := by
  induction run with
  | nil =>
    have hSame : s₀.underway = s₀ := by
      unfold underway
      rw [hUnused.calls, List.filter_nil, ← hUnused.calls]
    exact hSame.symm ▸ .nil
  | snoc run hStep ih =>
    rw [List.filter_append]
    exact ih.step (run.exclusive hUnused).line hStep

/-! ## Main result -/

/--
**Exclusivity and serialisation.** In every run of a controller, however calls, sessions and the
world are interleaved, and whatever fails:

* at every moment at most one session has been spawned and not been joined yet, and at most one
  task is running;
* when a session is spawned, every earlier one has been joined, and none of them makes a step after
  that; the task of a session that was joined is over;
* a session is told to end once at most, and joined once at most;
* the record and the service are those of a serial run, in which calls obtain the lock in the same
  order and nobody ever waits for it: up to the calls that still wait, and exactly once none is
  left.
-/
theorem sessions_exclusive_and_serial (hUnused : s₀.Unused) (run : Steps s₀ moves lives s) :
    (∀ before later, lives = before ++ later → (unjoined before).length ≤ 1) ∧
    (∀ (i j : SessionId) (a b : Session), s.session? i = some a → s.session? j = some b →
      a.isLive = true → b.isLive = true → i = j) ∧
    (∀ before later (m : Nat), lives = before ++ .spawned m :: later →
      ∀ i < m, .joined i ∈ before ∧ .acted i ∉ later) ∧
    (∀ (i : SessionId) (session : Session), .joined i ∈ lives → s.session? i = some session →
      session.isLive = false) ∧
    (∀ i : SessionId, lives.count (.ended i) ≤ 1 ∧ lives.count (.joined i) ≤ 1) ∧
    Serially s₀ (moves.filter (!·.isBegin)) lives s.underway ∧
    (s.calls = [] → s.underway = s) := by
  have hInv := run.exclusive hUnused
  refine ⟨?_, ?_, ?_, ?_, ?_, run.serially hUnused, ?_⟩
  -- the record is in order at every moment, and at most the current session is not joined
  · rintro before later rfl
    obtain ⟨n, current, hBefore⟩ := hInv.orderly.of_append
    rw [hBefore.unjoined]
    cases current <;> simp
  -- both tasks are those of the current session
  · intro i j a b hI hJ hLiveI hLiveJ
    have hBoth := (hInv.running i a hI hLiveI).symm.trans (hInv.running j b hJ hLiveJ)
    exact Option.some.inj hBoth
  -- the lock is passed on only after a session was joined, and one that was joined rests
  · rintro before later m rfl i hLt
    have hJoined := hInv.orderly.joined_before hLt
    refine ⟨hJoined, fun hActed => ?_⟩
    have hRests := (List.pairwise_append.mp hInv.orderly.rests).2.2 (.joined i) hJoined (.acted i)
      (List.mem_cons_of_mem _ hActed)
    exact hRests i rfl rfl
  -- a task that is running is the current session's, which was not joined
  · intro i session hJoined hSession
    by_contra hLive
    have hCurrent := hInv.running i session hSession (Bool.not_eq_false _ ▸ hLive)
    exact (hCurrent ▸ hInv.orderly).not_joined hJoined
  · exact fun i => ⟨hInv.orderly.count_ended i, hInv.orderly.count_joined i⟩
  -- with no call left none waits
  · intro hDone
    unfold underway
    rw [hDone, List.filter_nil, ← hDone]

/-- A controller whose first connection fails. -/
def failingOnce : Service :=
  { disk := ⟨[], []⟩, backend := { failing := 1 } }

/-- Two calls to start at once: the first one finds its session over, the second one then spawns
another session. -/
theorem two_starts_exclusive_and_serial :
    failingOnce.Unused ∧
      (∃ s : Service, Steps failingOnce
          [.begin (.start [⟨"a"⟩] 5), .begin (.start [⟨"b"⟩] 5), .call, .session 0, .call, .call,
            .session 1]
          [.granted 0 (.start [⟨"a"⟩] 5), .spawned 0, .acted 0, .joined 0,
            .granted 1 (.start [⟨"b"⟩] 5), .spawned 1, .acted 1] s ∧
        Serially failingOnce [.call, .session 0, .call, .call, .session 1]
          [.granted 0 (.start [⟨"a"⟩] 5), .spawned 0, .acted 0, .joined 0,
            .granted 1 (.start [⟨"b"⟩] 5), .spawned 1, .acted 1] s.underway) := by
  have hUnused : failingOnce.Unused := ⟨rfl, rfl, rfl⟩
  have hFirst := Steps.snoc (@Steps.nil failingOnce) (.begin (.start [⟨"a"⟩] 5))
  have hSecond := hFirst.snoc (.begin (.start [⟨"b"⟩] 5))
  have hSpawned := hSecond.snoc (.call rfl)
  have hFailed := hSpawned.snoc (.session 0 rfl)
  have hJoined := hFailed.snoc (.call rfl)
  have hAgain := hJoined.snoc (.call rfl)
  have hConnected := hAgain.snoc (.session 1 rfl)
  exact ⟨hUnused, _, hConnected, (sessions_exclusive_and_serial hUnused hConnected).2.2.2.2.2.1⟩

end Service

end TreeWatch
