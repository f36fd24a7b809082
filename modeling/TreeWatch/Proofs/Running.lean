import TreeWatch.Proofs.Shutdown
import TreeWatch.Proofs.Snapshots

/-!
# What a controller that shows running watches

The status is written by calls; the loop of a session ends by itself. So what a running controller
holds is told from the reasons for which a session that became ready can be over
(`Session.Explained`): its engine crashed, a call told it to stop, or its channel was closed. The
session that is held was not told to stop. If its channel is open, it is the one that messages go
to (`Service.Answering`), and its loop receives what is in its inbox before anything else.

Main results:
  * `Answering.step`: every move keeps `Answering`
  * `FairRun.receives`: in a fair run the loop of a session receives its inbox in order
  * `running_controller_watches`: what all this means to a controller that shows running
  * `closed_session_stays_running`: a loop whose channel was closed leaves, and the status stays
-/

namespace TreeWatch

theorem Phase.Alike.of_connecting {before after : Phase} (h : before.Alike after)
    (hBefore : before = .connecting) : after = .connecting := by
  cases h with
  | refl => exact hBefore
  | registering | watching => cases hBefore

/-! ## Why a session is over -/

/-- A reason for which a session that became ready is over. -/
inductive Session.Over (session : Session) : Prop where
  | crashed (engine : Engine) (reason : String)
      (hPhase : session.phase = .finished (some engine) (some reason))
      (hCrash : engine.crash = some reason)
  | told (hCancelled : session.cancelled = true)
  | closed (engine : Engine) (hPhase : session.phase = .finished (some engine) none)
      (hClosed : session.closed = true)

/-- A session that became ready is over for a reason, if it is over. -/
def Session.Explained (session : Session) : Prop :=
  session.isLive = false → session.ready = some (.ok ()) → session.Over

/-- Messages come before the end of the channel and before the deadline. -/
theorem Round.receives_first {r : Round} {first : Message} {rest : List Message}
    (hInbox : r.loop.inbox = first :: rest) (hGoing : r.loop.cancelled = false) :
    r.turn.action = .received first ∧ r.turn.loop.inbox = rest := by
  cases r.did with
  | event event rest' hHere hFirst hAction hLoop =>
    cases hInbox.symm.trans hFirst
    exact ⟨hAction, by rw [hLoop]⟩
  | failure error rest' hHere hFirst hAction hLoop =>
    cases hInbox.symm.trans hFirst
    exact ⟨hAction, by rw [hLoop]⟩
  | expired hHere hNone hOpen hDue hAction hLoop => cases hInbox.symm.trans hNone
  | leftClean hStop hIdle hAction hLoop | leftFlushing hStop hArmed hAction hLoop =>
    rcases hStop with hTold | ⟨hNone, -⟩
    · cases hGoing.symm.trans hTold
    · cases hInbox.symm.trans hNone

namespace Session

variable {s : Service} {id : SessionId} {a b : Session}

theorem explained_of_live (hLive : a.isLive = true) : a.Explained := by
  intro hOver
  rw [hLive] at hOver
  cases hOver

theorem explained_of_unready (hReady : a.ready ≠ some (.ok ())) : a.Explained :=
  fun _ hOk => absurd hOk hReady

theorem Explained.cancelled : { a with cancelled := true }.Explained :=
  fun _ _ => .told rfl

/-- A loop leaves because it was told to or because nothing comes any more. -/
theorem explained_afterRound {r : Round} (hClosed : r.loop.closed = a.closed)
    (hCancelled : r.loop.cancelled = a.cancelled) : (a.afterRound r).Explained := by
  have hLeft (hStop : r.loop.cancelled = true ∨ r.loop.inbox = [] ∧ r.loop.closed = true)
      (engine : Engine) : { a with phase := .finished (some engine) none }.Over := by
    rcases hStop with hTold | ⟨-, hDeaf⟩
    · exact .told (hCancelled ▸ hTold)
    · exact .closed engine rfl (hClosed ▸ hDeaf)
  unfold afterRound
  dsimp only
  cases hCrash : r.turn.loop.coalescer.registrar.engine.crash with
  | some reason => exact fun _ _ => .crashed _ reason rfl hCrash
  | none =>
    unfold Round.leaves
    cases r.did with
    | event event rest hGoing hInbox hAction hLoop =>
      rw [hAction]
      exact explained_of_live rfl
    | failure error rest hGoing hInbox hAction hLoop =>
      rw [hAction]
      exact explained_of_live rfl
    | expired hGoing hInbox hOpen hDue hAction hLoop =>
      rw [hAction]
      exact explained_of_live rfl
    | leftClean hStop hIdle hAction hLoop =>
      rw [hAction]
      exact fun _ _ => hLeft hStop _
    | leftFlushing hStop hArmed hAction hLoop =>
      rw [hAction]
      exact fun _ _ => hLeft hStop _

/-- A step of its task ends a session for a reason. -/
theorem explained_acts (h : a.InOrder) (hActs : s.Acts id a b) (hSession : s.session? id = some a) :
    b.Explained := by
  cases hActs with
  | broke reason hPhase =>
    exact explained_of_unready (by simp [h.unready_of_connecting hPhase])
  | unconnected e hPhase => exact explained_of_unready (by simp)
  | connected registrar hPhase => exact explained_of_live rfl
  | unsubscribed c engine e hPhase => exact explained_of_unready (by simp)
  | unwanted c engine hPhase hAbandoned =>
    exact explained_of_unready (by simp [(h.of_registering hPhase).1])
  | subscribed c hPhase hResult => exact explained_of_live rfl
  | round r hRound =>
    obtain ⟨c, hPhase, hLoop⟩ := Service.watching_of_round hSession hRound
    exact explained_afterRound (by rw [hLoop]) (by rw [hLoop])

/-- A task tells nobody to stop. -/
theorem acts_cancelled (hActs : s.Acts id a b) : b.cancelled = a.cancelled := by
  cases hActs with
  | broke | unconnected | connected | unsubscribed | unwanted | subscribed => rfl
  | round r hRound =>
    obtain ⟨phase, inbox, hEq, -⟩ := a.afterRound_frame r
    rw [hEq]

/-- The world takes no reason away. -/
theorem Explained.undergoes {sink sink' : Option SessionId} (h : a.Explained)
    (hUndergoes : Service.Undergoes sink sink' id a b) : b.Explained := by
  intro hOver hOk
  have hWas : a.isLive = false := hUndergoes.phase.isLive_eq ▸ hOver
  cases h hWas (hUndergoes.ready ▸ hOk) with
  | crashed engine reason hPhase hCrash =>
    exact .crashed engine reason (hUndergoes.phase.finished hPhase) hCrash
  | told hCancelled => exact .told (hUndergoes.cancelled.trans hCancelled)
  | closed engine hPhase hClosed =>
    refine .closed engine (hUndergoes.phase.finished hPhase) ?_
    rcases hUndergoes.closed with hSame | ⟨hNow, -⟩
    · exact hSame.trans hClosed
    · exact hNow

end Session

namespace Service

variable {s s₀ after : Service} {moves : List Move} {lives more : List Life} {move : Move}
  {id : SessionId} {a b : Session} {c : Coalescer}

/-! ## The invariant -/

/-- What is true of the sessions of a controller as far as it does not watch any more: sessions are
over for a reason, calls are the ones that tell them to stop, and as long as its channel is open
a session with an engine is the one that messages go to. -/
structure Answering (s : Service) (lives : List Life) : Prop where
  explained : ∀ id session, s.session? id = some session → session.Explained
  told : ∀ id session, s.session? id = some session → session.cancelled = true → .ended id ∈ lives
  heard : ∀ id session, s.session? id = some session → session.isLive = true →
    session.phase ≠ .connecting → session.closed = false → s.sink = some id

theorem Unused.answering (h : s.Unused) : s.Answering [] where
  explained id session hSession := by simp [session?, h.sessions] at hSession
  told id session hSession := by simp [session?, h.sessions] at hSession
  heard id session hSession := by simp [session?, h.sessions] at hSession

/-- Where messages go is no matter of calls. -/
theorem stepCall_sink (hCall : s.stepCall = some after) : after.sink = s.sink := by
  obtain ⟨first, rest, hCalls⟩ := exists_call hCall
  cases stepCall_cases hCalls hCall with
  | refused request e log hStage hWhy hAfter => exact hAfter ▸ rfl
  | launched dirs grace log hStage hFree hDirs hAfter => exact hAfter ▸ rfl
  | ending request id next log hStage hHeld hEnds hAfter => exact hAfter ▸ rfl
  | started id next session log hStage hSession hReady hAfter => exact hAfter ▸ rfl
  | ended id session result log hAwaited hSession hVerdict hAfter => exact hAfter ▸ rfl
  | another id session dirs grace next log hAwaited hSession hDirs hAnother hAfter =>
    exact hAfter ▸ rfl

/-- A session that a call tells to stop is taken from the slot. -/
theorem told_of_call (hCall : s.stepCall = some after) (hSession : after.session? id = some b)
    (hCancelled : b.cancelled = true) :
    (∃ a, s.session? id = some a ∧ a.cancelled = true) ∨ .ended id ∈ livesOfCall s after := by
  have hSame (hSessions : after.sessions = s.sessions) :
      ∃ a, s.session? id = some a ∧ a.cancelled = true :=
    ⟨b, by rwa [session?, ← hSessions], hCancelled⟩
  -- a session that was spawned right now has not been told anything
  have hSpawned (t : Service) (dirs : List Path) (grace : UInt64)
      (hSessions : after.sessions = s.sessions ++ [t.spawn dirs grace]) :
      ∃ a, s.session? id = some a ∧ a.cancelled = true := by
    rw [session?, hSessions, List.getElem?_append] at hSession
    split at hSession
    · exact ⟨b, hSession, hCancelled⟩
    · rw [List.getElem?_singleton] at hSession
      obtain ⟨-, hFresh⟩ := Option.ite_none_right_eq_some.mp hSession
      cases hFresh
      cases hCancelled
  obtain ⟨first, rest, hCalls⟩ := exists_call hCall
  cases stepCall_cases hCalls hCall with
  | refused request e log hStage hWhy hAfter => exact Or.inl (hSame (by rw [hAfter]; rfl))
  | launched dirs grace log hStage hFree hDirs hAfter =>
    exact Or.inl (hSpawned s (Path.dedup dirs) grace (by rw [hAfter]; rfl))
  | ending request other next log hStage hHeld hEnds hAfter =>
    by_cases hHere : other = id
    · exact Or.inr (mem_livesOfCall_ended.mpr ⟨hHere ▸ hHeld, by simp [hAfter]⟩)
    · refine Or.inl ⟨b, ?_, hCancelled⟩
      rw [← hSession, hAfter]
      exact (List.getElem?_modify_ne _ _ hHere).symm
  | started other next session log hStage hThere hReady hAfter =>
    exact Or.inl (hSame (by rw [hAfter]; rfl))
  | ended other session result log hAwaited hThere hVerdict hAfter =>
    exact Or.inl (hSame (by rw [hAfter]; rfl))
  | another other session dirs grace next log hAwaited hThere hDirs hAnother hAfter =>
    exact Or.inl (hSpawned s.setStopped dirs grace (by rw [hAfter]; rfl))

theorem Answering.call (h : s.Answering lives) (hTidy : s.Tidy) (hCall : s.stepCall = some after) :
    after.Answering (lives ++ livesOfCall s after) := by
  obtain ⟨first, rest, hCalls⟩ := exists_call hCall
  have hSessions := (stepCall_cases hCalls hCall).sessionsAfter
    (hTidy.expects first (hCalls ▸ List.mem_cons_self)).sound
  refine ⟨fun id b hb => ?_, fun id b hb hCancelled => ?_, fun id b hb hLive hEngine hOpen => ?_⟩
  · rcases hSessions.session? hb with ⟨a, ha, rfl | rfl⟩ | ⟨-, dirs, grace, -, rfl⟩
    · exact h.explained id _ ha
    · exact .cancelled
    · exact Session.explained_of_live rfl
  · rcases told_of_call hCall hb hCancelled with ⟨a, ha, hTold⟩ | hNow
    · exact List.mem_append_left _ (h.told id a ha hTold)
    · exact List.mem_append_right _ hNow
  · rw [stepCall_sink hCall]
    rcases hSessions.session? hb with ⟨a, ha, rfl | rfl⟩ | ⟨-, dirs, grace, -, rfl⟩
    · exact h.heard id _ ha hLive hEngine hOpen
    · exact h.heard id a ha hLive hEngine hOpen
    · exact absurd rfl hEngine

/-- The session that connects its engine is the one that messages go to, or is over. -/
theorem connect_hears (hSession : s.session? id = some a) : (s.connect id a).sink = some id ∨
    ∃ b, (s.connect id a).session? id = some b ∧ b.isLive = false := by
  unfold connect
  dsimp only
  split
  · exact Or.inr ⟨_, session?_modified hSession _, rfl⟩
  · split
    · rw [report_enterPhase]
      exact Or.inr ⟨_, session?_modified hSession _, rfl⟩
    · exact Or.inl rfl

/-- A session that makes a step is the one that messages go to, if it has an engine then. -/
theorem Answering.heard_acts (h : s.Answering lives) (hSession : s.session? id = some a)
    (hLive : a.isLive = true) (hTask : s.stepSession id = some after)
    (hActs : s.Acts id a b) (hApart : s.Apart id b after) (hStill : b.isLive = true)
    (hOpen : b.closed = false) : after.sink = some id := by
  by_cases hConnecting : a.phase = .connecting
  · have hEq : s.connect id a = after := by
      unfold stepSession at hTask
      simpa only [hSession, hConnecting, Option.some.injEq] using hTask
    rcases hEq ▸ connect_hears hSession with hSink | ⟨c, hc, hOver⟩
    · exact hSink
    · cases hc.symm.trans (hApart.changed hSession)
      cases hOver.symm.trans hStill
  · have hHeard := h.heard id a hSession hLive hConnecting
      ((Session.acts_connects hActs).1 ▸ hOpen)
    rcases hApart.sink with hSame | ⟨hNew, -⟩
    · exact hSame.trans hHeard
    · exact hNew

theorem Answering.session {other : SessionId} (h : s.Answering lives) (hTidy : s.Tidy)
    (hExclusive : s.Exclusive lives) (hTask : s.stepSession other = some after) :
    after.Answering (lives ++ [.acted other]) := by
  obtain ⟨old, new, hOther, hActs, hApart⟩ := stepSession_cases hTask
  have hLive : old.isLive = true := by
    obtain ⟨live, hThere, hLive⟩ := (stepSession_effect hTask).live
    exact Option.some.inj (hThere.symm.trans hOther) ▸ hLive
  refine ⟨fun id b hb => ?_, fun id b hb hCancelled => ?_, fun id b hb hStill hEngine hOpen => ?_⟩
  · rcases hApart.session_cases hOther hb with ⟨rfl, rfl⟩ | ⟨-, hSame⟩
    · exact Session.explained_acts (hTidy.inOrder other old hOther) hActs hOther
    · exact h.explained id b hSame
  · refine List.mem_append_left _ ?_
    rcases hApart.session_cases hOther hb with ⟨rfl, rfl⟩ | ⟨-, hSame⟩
    · exact h.told other old hOther (Session.acts_cancelled hActs ▸ hCancelled)
    · exact h.told id b hSame hCancelled
  · rcases hApart.session_cases hOther hb with ⟨rfl, rfl⟩ | ⟨hElse, hSame⟩
    · exact h.heard_acts hOther hLive hTask hActs hApart hStill hOpen
    · -- two tasks that are not over are the same one
      have hHere := hExclusive.running id b hSame hStill
      rw [hExclusive.running other old hOther hLive, Option.some.injEq] at hHere
      exact absurd hHere hElse

theorem sink_of_disk (s : Service) (disk before : Disk) (touched : Path → Bool) :
    (({ s with disk }.reportChanges before).touchReloader touched).sink = s.sink := by
  obtain ⟨reloader, hTouch⟩ := touchReloader_eq ({ s with disk }.reportChanges before) touched
  rw [hTouch]
  unfold reportChanges
  split <;> rfl

/-- Only closing the channel changes where messages go. -/
theorem undergo_sink (s : Service) (o : Outside) :
    (s.undergo o).sink = s.sink ∨ o = .closeChannel := by
  cases o with
  | closeChannel => exact Or.inr rfl
  | deliver message =>
    left
    show (s.deliver message).1.sink = s.sink
    unfold deliver
    split
    · rfl
    · split
      · split <;> rfl
      · rfl
  | edit edit => exact Or.inl (sink_of_disk s (s.disk.edit edit) s.disk _)
  | observe disk => exact Or.inl (sink_of_disk s disk s.disk _)
  | rules | backend | clock | hazard => exact Or.inl rfl

/-- The channel that is closed is the one that messages went to. -/
theorem closeChannel_closes (hSink : s.sink = some id)
    (hSession : s.closeChannel.1.session? id = some b) : b.closed = true := by
  have hSessions : s.closeChannel.1.sessions =
      s.sessions.modify id fun session => { session with closed := true } := by
    rw [closeChannel, hSink]
    rfl
  rw [session?, hSessions, List.getElem?_modify] at hSession
  obtain ⟨a, -, rfl⟩ := Option.map_eq_some_iff.mp hSession
  rw [if_pos rfl]

theorem Answering.undergo (h : s.Answering lives) (o : Outside) :
    (s.undergo o).Answering lives := by
  have hUndergone := undergo_undergone s o
  refine ⟨fun id b hb => ?_, fun id b hb hCancelled => ?_, fun id b hb hLive hEngine hOpen => ?_⟩
  · obtain ⟨a, ha, hUndergoes⟩ := hUndergone.before hb
    exact (h.explained id a ha).undergoes hUndergoes
  · obtain ⟨a, ha, hUndergoes⟩ := hUndergone.before hb
    exact h.told id a ha (hUndergoes.cancelled ▸ hCancelled)
  · obtain ⟨a, ha, hUndergoes⟩ := hUndergone.before hb
    have hWasOpen : a.closed = false := by
      rcases hUndergoes.closed with hSame | ⟨hNow, -⟩
      · exact hSame ▸ hOpen
      · cases hOpen.symm.trans hNow
    have hHeard := h.heard id a ha (hUndergoes.phase.isLive_eq ▸ hLive)
      (fun hConnecting => hEngine (hUndergoes.phase.of_connecting hConnecting)) hWasOpen
    rcases undergo_sink s o with hSame | rfl
    · exact hSame.trans hHeard
    · cases hOpen.symm.trans (closeChannel_closes hHeard hb)

/-- **Every move** keeps the invariant. -/
theorem Answering.step (h : s.Answering lives) (hTidy : s.Tidy) (hExclusive : s.Exclusive lives)
    (hStep : Step s move more after) : after.Answering (lives ++ more) := by
  cases hStep with
  | begin request =>
    have hSame : (s.begin request).sessions = s.sessions ∧ (s.begin request).sink = s.sink := by
      rcases begin_effect s request with ⟨-, hBegun⟩ | ⟨dirs, e, -, -, hBegun⟩ <;>
        rw [hBegun] <;> exact ⟨rfl, rfl⟩
    have hSession (id : SessionId) : (s.begin request).session? id = s.session? id := by
      rw [session?, hSame.1, session?]
    rw [List.append_nil]
    exact ⟨fun id b hb => h.explained id b (hSession id ▸ hb),
      fun id b hb => h.told id b (hSession id ▸ hb),
      fun id b hb => hSame.2 ▸ h.heard id b (hSession id ▸ hb)⟩
  | call hCall => exact h.call hTidy hCall
  | session id hTask => exact h.session hTidy hExclusive hTask
  | outside o =>
    rw [List.append_nil]
    exact h.undergo o

/-- **Every run** keeps the invariant. -/
theorem Steps.answering (run : Steps s₀ moves lives s) (hFresh : s₀.Fresh) :
    s.Answering lives := by
  induction run with
  | nil => exact hFresh.toUnused.answering
  | snoc run hStep ih =>
    exact ih.step (run.tidy hFresh.tidy) (run.exclusive hFresh.toUnused) hStep

/-! ## What a loop receives -/

/-- As long as the loop of a session makes no round, it watches and keeps what is in its inbox. -/
theorem Tidy.still_watching (h : s.Tidy) (hStep : Step s move more after)
    (hOther : move ≠ .session id) (hSession : s.session? id = some a)
    (hPhase : a.phase = .watching c) :
    ∃ b c', after.session? id = some b ∧ b.phase = .watching c' ∧ a.inbox <+: b.inbox := by
  cases hStep with
  | begin request =>
    rcases begin_effect s request with ⟨-, hBegun⟩ | ⟨dirs, e, -, -, hBegun⟩ <;>
      exact hBegun ▸ ⟨a, c, hSession, hPhase, List.prefix_rfl⟩
  | call hCall =>
    obtain ⟨first, rest, hCalls⟩ := exists_call hCall
    have hSound := (h.expects first (hCalls ▸ List.mem_cons_self)).sound
    obtain ⟨b, hb, rfl | rfl⟩ := ((stepCall_cases hCalls hCall).sessionsAfter hSound).kept hSession
    · exact ⟨b, c, hb, hPhase, List.prefix_rfl⟩
    · exact ⟨_, c, hb, hPhase, List.prefix_rfl⟩
  | session other hTask =>
    obtain ⟨old, new, -, -, hApart⟩ := stepSession_cases hTask
    refine ⟨a, c, ?_, hPhase, List.prefix_rfl⟩
    rw [hApart.session?, if_neg fun hHere => hOther (congrArg Move.session hHere)]
    exact hSession
  | outside o =>
    obtain ⟨b, hb, hUndergoes⟩ := (undergo_undergone s o).later hSession
    obtain ⟨engine, -, hWatching⟩ := hUndergoes.phase.of_watching hPhase
    exact ⟨b, _, hb, hWatching, hUndergoes.inbox⟩

/-- A loop with something in its inbox can make a round. -/
theorem stepSession_waiting {first : Message} {rest : List Message}
    (hSession : s.session? id = some a) (hPhase : a.phase = .watching c)
    (hInbox : a.inbox = first :: rest) : (s.stepSession id).isSome = true := by
  unfold stepSession
  rw [hSession]
  simp only [hPhase, hInbox, Loop.turn, Option.isSome_map]
  split <;> rfl

/-- A loop that was not told to stop receives what is first in its inbox. -/
theorem receives_first {first : Message} {rest : List Message} (hSession : s.session? id = some a)
    (hPhase : a.phase = .watching c) (hInbox : a.inbox = first :: rest)
    (hGoing : a.cancelled = false) (hTask : s.stepSession id = some after) :
    ∃ r, s.round? id = some r ∧ r.turn.action = .received first ∧
      ∃ b, after.session? id = some b ∧ ((∃ c', b.phase = .watching c' ∧ b.inbox = rest) ∨
        ∃ engine reason, b.phase = .finished engine (some reason)) := by
  obtain ⟨old, b, hOld, hActs, hApart⟩ := stepSession_cases hTask
  obtain rfl : old = a := Option.some.inj (hOld.symm.trans hSession)
  have hAfter := hApart.changed hSession
  cases hActs with
  | broke reason hHere | unconnected e hHere | connected registrar hHere
  | unsubscribed c' engine e hHere | unwanted c' engine hHere hAbandoned
  | subscribed c' hHere hResult => cases hHere.symm.trans hPhase
  | round r hRound =>
    obtain ⟨c', -, hLoop⟩ := watching_of_round hSession hRound
    have hFirst : r.loop.inbox = first :: rest := by rw [hLoop, ← hInbox]
    obtain ⟨hReceived, hRest⟩ :=
      r.receives_first (by rw [hLoop, ← hInbox]) (by rw [hLoop, ← hGoing])
    have hFate := old.afterRound_fate r
    refine ⟨r, hRound, hReceived, _, hAfter, ?_⟩
    cases hEnd : r.fate with
    | going l =>
      rw [hEnd] at hFate
      exact Or.inl ⟨l.coalescer, by rw [hFate], by rw [hFate, (Round.fate_going hEnd).1, hRest]⟩
    | returned =>
      -- a round that receives something does not leave
      rw [Round.fate, Round.leaves, hReceived] at hEnd
      split at hEnd <;> cases hEnd
    | crashed =>
      rw [hEnd] at hFate
      obtain ⟨engine, reason, hEq⟩ := hFate
      exact Or.inr ⟨engine, reason, by rw [hEq]⟩

/-- Rounds are steps of their session. -/
theorem rounds_of_others (h : ∀ move ∈ moves, move ≠ .session id) : s.rounds id moves = [] := by
  induction moves generalizing s with
  | nil => rfl
  | cons move rest ih =>
    have hNone : s.roundIn? id move = none := by
      cases move with
      | session other =>
        rw [roundIn?_session, if_neg fun hHere => h (.session other) List.mem_cons_self
          (congrArg Move.session hHere)]
      | begin request | call | outside o => rfl
    rw [rounds, hNone, ih fun move hMove => h move (List.mem_cons_of_mem _ hMove)]
    rfl

namespace FairRun

/-- The moves of a run up to a moment. -/
def firstMoves (run : FairRun s₀) (n : Nat) : List Move :=
  (List.range n).map run.move

theorem firstMoves_succ (run : FairRun s₀) (n : Nat) :
    run.firstMoves (n + 1) = run.firstMoves n ++ [run.move n] := by
  rw [firstMoves, List.range_succ, List.map_append]
  rfl

theorem firstMoves_add (run : FairRun s₀) (n m : Nat) :
    run.firstMoves (n + m) = run.firstMoves n ++ (run.later n).firstMoves m := by
  rw [firstMoves, List.range_add, List.map_append, List.map_map]
  rfl

/-- The moves of a run lead to its states. -/
theorem foldl_firstMoves (run : FairRun s₀) (n : Nat) :
    (run.firstMoves n).foldl perform s₀ = run.state n := by
  obtain ⟨lives, hSteps⟩ := run.steps n
  exact hSteps.foldl_perform

/-- As long as its session makes no step, a loop watches and keeps what is in its inbox. -/
theorem still_watching (run : FairRun s₀) (hTidy : s₀.Tidy) (hSession : s₀.session? id = some a)
    (hPhase : a.phase = .watching c) (n : Nat) (hOthers : ∀ m < n, run.move m ≠ .session id) :
    ∃ b c', (run.state n).session? id = some b ∧ b.phase = .watching c' ∧ a.inbox <+: b.inbox := by
  induction n with
  | zero =>
    rw [run.first]
    exact ⟨a, c, hSession, hPhase, List.prefix_rfl⟩
  | succ n ih =>
    obtain ⟨b, c', hb, hWatching, hInbox⟩ := ih fun m hm => hOthers m (by omega)
    obtain ⟨lives, hSteps⟩ := run.steps n
    obtain ⟨more, hStep⟩ := run.step n
    obtain ⟨b', c'', hb', hStill, hMore⟩ :=
      (hSteps.tidy hTidy).still_watching hStep (hOthers n (by omega)) hb hWatching
    exact ⟨b', c'', hb', hStill, hInbox.trans hMore⟩

/-- **In a fair run** the loop of a session receives what is in its inbox, in order, unless a call
tells it to stop before or its engine crashes. -/
theorem receives (run : FairRun s₀) (hTidy : s₀.Tidy) (hSession : s₀.session? id = some a)
    (hPhase : a.phase = .watching c) {messages : List Message} (hInbox : messages <+: a.inbox) :
    ∃ n, (s₀.rounds id (run.firstMoves n)).map (fun r => r.turn.action) = messages.map .received ∨
      ∃ b, (run.state n).session? id = some b ∧
        (b.cancelled = true ∨ ∃ engine reason, b.phase = .finished engine (some reason)) := by
  -- by induction on the messages, over the runs that are left after each of them
  induction messages generalizing s₀ a c with
  | nil => exact ⟨0, Or.inl rfl⟩
  | cons first rest ih =>
    obtain ⟨more, hFirst⟩ := hInbox
    -- the session can make a step as long as it makes none, so it makes one some time
    have hSome : ∃ n, run.move n = .session id := by
      by_contra hNever
      push Not at hNever
      obtain ⟨n, -, hMove⟩ := run.fair (.session id) rfl 0 fun n _ => by
        obtain ⟨b, c', hb, hWatching, hKept⟩ :=
          run.still_watching hTidy hSession hPhase n fun m _ => hNever m
        obtain ⟨others, hAll⟩ := hKept
        rw [← hFirst, List.cons_append, List.cons_append] at hAll
        exact stepSession_waiting hb hWatching hAll.symm
      exact hNever n hMove
    obtain ⟨n, hMove, hBefore⟩ :
        ∃ n, run.move n = .session id ∧ ∀ m < n, run.move m ≠ .session id := by
      classical exact ⟨Nat.find hSome, Nat.find_spec hSome, fun m hm => Nat.find_min hSome hm⟩
    obtain ⟨b, c', hb, hWatching, rest', hKept⟩ :=
      run.still_watching hTidy hSession hPhase n hBefore
    by_cases hTold : b.cancelled = true
    · exact ⟨n, Or.inr ⟨b, hb, Or.inl hTold⟩⟩
    obtain ⟨lives, hSteps⟩ := run.steps n
    obtain ⟨last, hStep⟩ := run.step n
    have hTidyAfter := (hSteps.tidy hTidy).step hStep
    rw [hMove] at hStep
    cases hStep with
    | session _ hTask =>
      rw [← hFirst, List.cons_append, List.cons_append] at hKept
      obtain ⟨r, hRound, hReceived, b', hb', ⟨c'', hStill, hRest⟩ | hCrashed⟩ :=
        receives_first hb hWatching hKept.symm (Bool.not_eq_true _ ▸ hTold) hTask
      · -- the rest of the inbox is received in the rest of the run
        obtain ⟨m, hMore⟩ := ih (run.later (n + 1)) hTidyAfter hb' hStill
          (hRest ▸ ⟨more ++ rest', (List.append_assoc ..).symm⟩)
        refine ⟨n + 1 + m, hMore.imp_left fun hLater => ?_⟩
        have hFirstRound : s₀.rounds id (run.firstMoves (n + 1)) = [r] := by
          rw [firstMoves_succ, rounds_append, run.foldl_firstMoves, hMove, rounds_of_others, rounds,
            roundIn?_session, if_pos rfl, hRound]
          · rfl
          · simpa [firstMoves] using hBefore
        rw [firstMoves_add, rounds_append, run.foldl_firstMoves, hFirstRound, List.map_append,
          hLater, List.map_singleton, hReceived]
        rfl
      · exact ⟨n + 1, Or.inr ⟨b', hb', Or.inr hCrashed⟩⟩

end FairRun

/-! ## Main result -/

/-- Messages go to the inbox of a session that hears. -/
theorem deliver_eq (hSink : s.sink = some id) (hSession : s.session? id = some a)
    (hLive : a.isLive = true) (message : Message) : s.deliver message =
      (s.modifySession id fun session => { session with inbox := session.inbox ++ [message] },
        .delivered) := by
  rw [deliver, hSink]
  simp only [hSession, hLive, if_true]

/-- The session that is held while no call is in progress was not told to stop. -/
theorem held_untold (hTidy : s.Tidy) (hExclusive : s.Exclusive lives) (h : s.Answering lives)
    (hHeld : s.slot = some id) : ∃ session, s.session? id = some session ∧
      session.ready = some (.ok ()) ∧ session.cancelled = false := by
  obtain ⟨session, hSession, hReady⟩ := hTidy.held id hHeld
  refine ⟨session, hSession, hReady, Bool.eq_false_iff.mpr fun hTold => ?_⟩
  refine hExclusive.unended id ?_ (h.told id session hSession hTold)
  rw [unended?, hHeld]
  rfl

/-- A session that is held watches, or is over because its engine crashed or its channel was
closed. -/
theorem held_cases (hTidy : s.Tidy) (h : s.Answering lives) (hSession : s.session? id = some a)
    (hReady : a.ready = some (.ok ())) (hGoing : a.cancelled = false) :
    (∃ c, a.phase = .watching c) ∨
      (∃ engine reason, a.phase = .finished (some engine) (some reason) ∧
        engine.crash = some reason) ∨
      ∃ engine, a.phase = .finished (some engine) none ∧ a.closed = true := by
  have hOver (hFinished : a.isLive = false) : (∃ engine reason,
      a.phase = .finished (some engine) (some reason) ∧ engine.crash = some reason) ∨
      ∃ engine, a.phase = .finished (some engine) none ∧ a.closed = true := by
    cases h.explained id a hSession hFinished hReady with
    | crashed engine reason hPhase hCrash => exact Or.inl ⟨engine, reason, hPhase, hCrash⟩
    | told hTold => cases hGoing.symm.trans hTold
    | closed engine hPhase hClosed => exact Or.inr ⟨engine, hPhase, hClosed⟩
  cases hTidy.inOrder id a hSession with
  | connecting hPhase hNone hOpen => cases hReady.symm.trans hNone
  | registering registrar hPhase hNone => cases hReady.symm.trans hNone
  | watching c hPhase hOk => exact Or.inl ⟨c, hPhase⟩
  | finished engine crash hPhase => exact Or.inr (hOver (by simp [Session.isLive, hPhase]))

/-- A controller without calls that shows running holds a session. -/
theorem Shows.held_of_running (h : s.Shows) (hCalls : s.calls = [])
    (hRunning : s.status.isRunning = true) : ∃ id, s.slot = some id := by
  cases hSlot : s.slot with
  | some id => exact ⟨id, rfl⟩
  | none =>
    rw [h.of_free (by rw [awaited?, hCalls]) hSlot] at hRunning
    cases hRunning

/--
**Running means watching**, as long as the channel of the engine is open. In every run of a fresh
controller, however calls, sessions and the world are interleaved, whenever no call is in progress
and the controller shows running, it holds a session that became ready and that no call has told to
stop, and

* the loop of the session has not been left, unless the channel of its engine was closed or the
  engine crashed over a request;
* if it has not been left and the channel is open, every further message gets into its inbox, and in
  every fair run from there the loop receives all that is in the inbox, in order and up to that
  message, unless a call tells the session to stop before or the engine crashes.
-/
theorem running_controller_watches (hFresh : s₀.Fresh) (run : Steps s₀ moves lives s)
    (hCalls : s.calls = []) (hRunning : s.status.isRunning = true) :
    ∃ id session, s.slot = some id ∧ s.session? id = some session ∧
      session.ready = some (.ok ()) ∧ session.cancelled = false ∧
      ((∃ c, session.phase = .watching c) ∨
        (∃ engine reason, session.phase = .finished (some engine) (some reason) ∧
          engine.crash = some reason) ∨
        ∃ engine, session.phase = .finished (some engine) none ∧ session.closed = true) ∧
      (session.isLive = true → session.closed = false → ∀ message,
        (s.deliver message).2 = .delivered ∧
        ∀ fair : FairRun (s.undergo (.deliver message)), ∃ n,
          ((s.undergo (.deliver message)).rounds id (fair.firstMoves n)).map
              (fun r => r.turn.action) = (session.inbox ++ [message]).map .received ∨
            ∃ later, (fair.state n).session? id = some later ∧ (later.cancelled = true ∨
              ∃ engine reason, later.phase = .finished engine (some reason))) := by
  have hTidy := run.tidy hFresh.tidy
  have hAnswering := run.answering hFresh
  obtain ⟨id, hHeld⟩ := (run.shows hFresh).1.held_of_running hCalls hRunning
  obtain ⟨session, hSession, hReady, hGoing⟩ :=
    held_untold hTidy (run.exclusive hFresh.toUnused) hAnswering hHeld
  have hWatches := held_cases hTidy hAnswering hSession hReady hGoing
  refine ⟨id, session, hHeld, hSession, hReady, hGoing, hWatches, ?_⟩
  intro hLive hOpen message
  obtain ⟨c, hPhase⟩ : ∃ c, session.phase = .watching c := by
    rcases hWatches with hPhase | ⟨engine, reason, hPhase, -⟩ | ⟨engine, hPhase, -⟩
    · exact hPhase
    all_goals simp [Session.isLive, hPhase] at hLive
  have hSink := hAnswering.heard id session hSession hLive (by simp [hPhase]) hOpen
  have hDelivered := deliver_eq hSink hSession hLive message
  refine ⟨by rw [hDelivered], fun fair => ?_⟩
  have hThere : (s.undergo (.deliver message)).session? id =
      some { session with inbox := session.inbox ++ [message] } := by
    show (s.deliver message).1.session? id = _
    rw [hDelivered]
    exact session?_modified hSession _
  exact fair.receives (hTidy.step (.outside (.deliver message))) hThere hPhase List.prefix_rfl

/-- A session over the directory `a` is started. -/
def startUp : List Move :=
  [.begin (.start [⟨"a"⟩] 5), .call, .session 0, .session 0, .call]

/-- After a start the session is live and hears. -/
theorem started_controller_watches :
    atHome.Fresh ∧ ∃ (s : Service) (session : Session),
      Steps atHome startUp [.granted 0 (.start [⟨"a"⟩] 5), .spawned 0, .acted 0, .acted 0] s ∧
      s.calls = [] ∧ s.status.isRunning = true ∧ s.slot = some 0 ∧
      s.session? 0 = some session ∧ (∃ c, session.phase = .watching c) ∧
      ∀ message, (s.deliver message).2 = .delivered := by
  have hFresh : atHome.Fresh := ⟨⟨rfl, rfl, rfl⟩, rfl, rfl⟩
  let s := startUp.foldl perform atHome
  have hRun : Steps atHome startUp (atHome.record startUp) s :=
    steps_of_possible (by decide +kernel)
  have hRecord : atHome.record startUp =
      [.granted 0 (.start [⟨"a"⟩] 5), .spawned 0, .acted 0, .acted 0] := by
    decide +kernel
  rw [hRecord] at hRun
  obtain ⟨id, session, hSlot, hSession, -, -, hWatches, hHears⟩ :=
    running_controller_watches hFresh hRun rfl rfl
  cases hSlot
  cases hSession
  refine ⟨hFresh, s, _, hRun, rfl, rfl, rfl, rfl, ?_, fun message => (hHears rfl rfl message).1⟩
  rcases hWatches with hPhase | ⟨engine, reason, hPhase, -⟩ | ⟨engine, hPhase, -⟩
  · exact hPhase
  · cases hPhase
  · cases hPhase

/-- **A loop whose channel was closed leaves**, and the controller still shows running, with no call
in progress, no crash and nobody to receive a message. -/
theorem closed_session_stays_running :
    atHome.Fresh ∧ ∃ (s : Service) (session : Session),
      Steps atHome (startUp ++ [.outside .closeChannel, .session 0])
        [.granted 0 (.start [⟨"a"⟩] 5), .spawned 0, .acted 0, .acted 0, .acted 0] s ∧
      s.calls = [] ∧ s.status.isRunning = true ∧ s.slot = some 0 ∧
      s.session? 0 = some session ∧ (∃ engine, session.phase = .finished (some engine) none) ∧
      ∀ message, (s.deliver message).2 ≠ .delivered := by
  let moves : List Move := startUp ++ [.outside .closeChannel, .session 0]
  have hRun : Steps atHome moves (atHome.record moves) (moves.foldl perform atHome) :=
    steps_of_possible (by decide +kernel)
  have hRecord : atHome.record moves =
      [.granted 0 (.start [⟨"a"⟩] 5), .spawned 0, .acted 0, .acted 0, .acted 0] := by
    decide +kernel
  rw [hRecord] at hRun
  exact ⟨⟨⟨rfl, rfl, rfl⟩, rfl, rfl⟩, _, _, hRun, rfl, rfl, rfl, rfl, ⟨_, rfl⟩,
    fun message => by cases message <;> exact fun h => by cases h⟩

end Service

end TreeWatch
