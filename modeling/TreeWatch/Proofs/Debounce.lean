import Mathlib.Data.List.Chain
import TreeWatch.Proofs.Accounting

/-!
# Debounce: flushes wait for quiet

One deadline serves all roots. Every mark of any root moves it to a grace period after the mark,
and nothing else moves it, so when it is over no root was marked for a grace period. Changes that
come in bursts, each within the grace period of the one before, are therefore never divided: the
flush that covers the first of them covers them all.

The clock of a run is taken to be monotone. Nothing is assumed about when messages arrive.

Main results:

* `Run.grace_le_deadline` — the invariant: an armed deadline is a grace period away from every
  mark so far;
* `Run.expires_after_grace` — a flush on the deadline comes a grace period after the last mark of
  any root, and only when no message is waiting;
* `Run.no_flush_in_burst` — no flush divides a burst;
* `flushes_are_debounced` — all of it, with what quiet changes leave alone.
-/

namespace TreeWatch

variable {roots : List Path} {grace : UInt64} {rounds : List Round} {fate : Fate}

/-- The clock never goes back between two rounds. -/
def MonotoneClock (rounds : List Round) : Prop :=
  rounds.Pairwise fun r s => r.now ≤ s.now

/-! ## The deadline -/

/-- What a turn makes of the deadline: a mark moves it, a flush disarms it, nothing else does
anything to it. -/
theorem Round.deadline_eq (r : Round) :
    r.turn.loop.coalescer.deadline =
      if r.flushes then none
      else if r.marks = [] then r.loop.coalescer.deadline
      else some (r.now + r.loop.coalescer.grace.toNat) := by
  unfold Round.flushes Round.marks
  cases r.did with
  | event event rest hGoing hInbox hAction hLoop =>
    rw [hAction, hLoop]
    exact Coalescer.handleEvent_deadline ..
  | failure error rest hGoing hInbox hAction hLoop =>
    rw [hAction, hLoop]
    rfl
  | expired hGoing hInbox hOpen hDue hAction hLoop =>
    rw [hAction, hLoop]
    rfl
  | leftClean hStop hIdle hAction hLoop =>
    rw [hAction, hLoop]
    rfl
  | leftFlushing hStop hArmed hAction hLoop =>
    rw [hAction, hLoop]
    rfl

/-- **The invariant.** An armed deadline is a grace period away from every mark so far, of
whichever root. -/
theorem Run.grace_le_deadline (h : Run roots grace rounds fate) :
    MonotoneClock rounds → ∀ {l : Loop} {due : Nat}, fate = .going l →
      l.coalescer.deadline = some due →
      ∀ s ∈ rounds, s.marks ≠ [] → s.now + grace.toNat ≤ due := by
  induction h with
  | start =>
    intro _ l due _ _ s hs
    simp at hs
  | @wait rounds before after hRun hWait ih =>
    intro hClock l due hFate hDue
    -- while the loop waits, no deadline moves
    injection hFate with hEq
    obtain ⟨engine, -, hSame⟩ := hWait.engine
    refine ih hClock rfl ?_
    rw [← hDue, ← hEq, hSame]
  | @turn rounds r hRun ih =>
    intro hClock l due hFate hDue s hs hMarks
    -- after a turn the deadline is unset, the old one, or a grace period from now
    obtain ⟨hBefore, -, hLast⟩ := List.pairwise_append.mp hClock
    rw [(Round.fate_going hFate).1, Round.deadline_eq] at hDue
    split at hDue
    · cases hDue
    · split at hDue
      · rename_i hQuiet
        -- nothing was marked now, and the deadline is the old one
        rcases List.mem_append.mp hs with hOld | hHere
        · exact ih hBefore rfl hDue s hOld hMarks
        · rw [List.mem_singleton] at hHere
          subst hHere
          exact absurd hQuiet hMarks
      -- a mark moved it: it is a grace period from now, and no mark is later than now
      · rw [Option.some.injEq, (hRun.settled rfl).grace_eq] at hDue
        rcases List.mem_append.mp hs with hOld | hHere
        · have := hLast s hOld r (by simp)
          omega
        · rw [List.mem_singleton] at hHere
          subst hHere
          omega

/-- **A flush on the deadline is never early.** It comes a grace period after the last mark of any
root, and only when no message is waiting and nobody told the loop to stop. -/
theorem Run.expires_after_grace {before after : List Round} {r : Round}
    (h : Run roots grace (before ++ r :: after) fate)
    (hClock : MonotoneClock (before ++ r :: after)) (hExpires : r.expires = true) :
    r.loop.inbox = [] ∧ r.loop.cancelled = false ∧ r.loop.closed = false ∧
      ∀ s ∈ before, s.marks ≠ [] → s.now + grace.toNat ≤ r.now := by
  have hBefore : MonotoneClock before := (List.pairwise_append.mp hClock).1
  unfold Round.expires at hExpires
  cases r.did with
  | event event rest hGoing hInbox hAction hLoop =>
    rw [hAction] at hExpires
    cases hExpires
  | failure error rest hGoing hInbox hAction hLoop =>
    rw [hAction] at hExpires
    cases hExpires
  | expired hGoing hInbox hOpen hDue hAction hLoop =>
    refine ⟨hInbox, hGoing, hOpen, ?_⟩
    intro s hs hMarks
    unfold Loop.isDue at hDue
    cases hDeadline : r.loop.coalescer.deadline with
    | none =>
      rw [hDeadline] at hDue
      cases hDue
    | some due =>
      rw [hDeadline] at hDue
      -- it is due, and no mark is less than a grace period before it
      have hOver : due ≤ r.now := by simpa using hDue
      have hGrace := (h.before rfl).grace_le_deadline hBefore rfl hDeadline s hs hMarks
      omega
  | leftClean hStop hIdle hAction hLoop =>
    rw [hAction] at hExpires
    cases hExpires
  | leftFlushing hStop hArmed hAction hLoop =>
    rw [hAction] at hExpires
    cases hExpires

/-! ## Bursts -/

/-- Rounds that begin and end with a mark of a root, its marks in between each less than a grace
period apart. Anything may happen between them: other roots are marked, messages fail, events say
nothing. -/
structure Burst (grace : UInt64) (root : Path) (rounds : List Round) : Prop where
  first : ∃ r rest, rounds = r :: rest ∧ root ∈ r.marks
  last : ∃ init r, rounds = init ++ [r] ∧ root ∈ r.marks
  close : (rounds.filter fun r => decide (root ∈ r.marks)).IsChain
    fun r s => s.now < r.now + grace.toNat

/-- In a chain of chosen elements, one that is not chosen stands between two neighbours. -/
theorem exists_neighbours {α : Type} {R : α → α → Prop} {chosen : α → Bool} {left right : List α}
    {s : α} (hChain : ((left ++ s :: right).filter chosen).IsChain R) (hs : chosen s = false)
    (hLeft : ∃ a ∈ left, chosen a = true) (hRight : ∃ b ∈ right, chosen b = true) :
    ∃ a ∈ left, ∃ b ∈ right, chosen a = true ∧ R a b := by
  rw [List.filter_append, List.filter_cons_of_neg (by simp [hs])] at hChain
  obtain ⟨-, -, hGap⟩ := List.isChain_append.mp hChain
  -- the last one chosen on the left, and the first one on the right
  obtain ⟨lefts, a, hLefts⟩ : ∃ lefts a, left.filter chosen = lefts ++ [a] := by
    obtain ⟨x, hx, hChosen⟩ := hLeft
    rcases List.eq_nil_or_concat (left.filter chosen) with hNil | ⟨lefts, a, hEq⟩
    · exact absurd (List.mem_filter.mpr ⟨hx, hChosen⟩) (by simp [hNil])
    · exact ⟨lefts, a, by rw [hEq, List.concat_eq_append]⟩
  obtain ⟨b, rights, hRights⟩ : ∃ b rights, right.filter chosen = b :: rights := by
    obtain ⟨x, hx, hChosen⟩ := hRight
    cases hEq : right.filter chosen with
    | nil => exact absurd (List.mem_filter.mpr ⟨hx, hChosen⟩) (by simp [hEq])
    | cons b rights => exact ⟨b, rights, rfl⟩
  have ha : a ∈ left ∧ chosen a = true :=
    List.mem_filter.mp (hLefts ▸ List.mem_append_right lefts (List.mem_singleton_self a))
  have hb : b ∈ right ∧ chosen b = true :=
    List.mem_filter.mp (hRights ▸ List.mem_cons_self)
  exact ⟨a, ha.1, b, hb.1, ha.2, hGap a (by simp [hLefts]) b (by simp [hRights])⟩

/-- A round that flushes marks nothing. -/
theorem Round.marks_of_flushes {r : Round} (h : r.flushes = true) : r.marks = [] := by
  unfold Round.flushes at h
  unfold Round.marks
  cases hAction : r.turn.action with
  | received message =>
    rw [hAction] at h
    cases h
  | flushed bumps => rfl
  | left bumps => rfl

/-- A flush that does not leave the loop is one on the deadline. -/
theorem Round.expires_of_flushes {r : Round} (h : r.flushes = true) (hStays : r.leaves = false) :
    r.expires = true := by
  unfold Round.flushes at h
  unfold Round.leaves at hStays
  unfold Round.expires
  cases hAction : r.turn.action with
  | received message =>
    rw [hAction] at h
    cases h
  | flushed bumps => rfl
  | left bumps =>
    rw [hAction] at hStays
    cases hStays

/-- **No flush divides a burst.** A flush within would be one on the deadline, a grace period after
the mark before it; the next mark comes earlier than that. -/
theorem Run.no_flush_in_burst {before burst after : List Round} {root : Path}
    (h : Run roots grace (before ++ burst ++ after) fate)
    (hClock : MonotoneClock (before ++ burst ++ after)) (hBurst : Burst grace root burst) :
    ∀ s ∈ burst, s.flushes = false := by
  intro s hs
  by_contra hFlush
  rw [Bool.not_eq_false] at hFlush
  obtain ⟨left, right, rfl⟩ := List.append_of_mem hs
  have hSilent : root ∉ s.marks := by
    rw [Round.marks_of_flushes hFlush]
    simp
  -- the flush is neither the first round of the burst nor the last
  have hFirst : ∃ r ∈ left, decide (root ∈ r.marks) = true := by
    obtain ⟨r, rest, hEq, hMark⟩ := hBurst.first
    cases left with
    | nil =>
      rw [List.nil_append, List.cons.injEq] at hEq
      exact absurd (hEq.1 ▸ hMark) hSilent
    | cons x xs =>
      rw [List.cons_append, List.cons.injEq] at hEq
      exact ⟨x, List.mem_cons_self .., by simpa [hEq.1] using hMark⟩
  have hLast : ∃ r ∈ right, decide (root ∈ r.marks) = true := by
    obtain ⟨init, r, hEq, hMark⟩ := hBurst.last
    rcases List.eq_nil_or_concat right with rfl | ⟨front, final, rfl⟩
    · have hEnd := List.cons.inj (List.append_inj' hEq rfl).2
      exact absurd (hEnd.1 ▸ hMark) hSilent
    · rw [List.concat_eq_append, ← List.cons_append, ← List.append_assoc] at hEq
      have hEnd := List.cons.inj (List.append_inj' hEq rfl).2
      exact ⟨final, by simp, by simpa [hEnd.1] using hMark⟩
  -- so it stands between two marks that follow each other
  obtain ⟨a, ha, b, hb, haMark, hNext⟩ :=
    exists_neighbours hBurst.close (by simpa using hSilent) hFirst hLast
  -- the flush is on the deadline, since the run goes on after it
  have hCut : before ++ (left ++ s :: right) ++ after =
      (before ++ left) ++ s :: (right ++ after) := by
    simp
  rw [hCut] at h hClock
  have hStays : s.leaves = false := by
    cases right with
    | nil => simp at hb
    | cons x xs => exact h.stays_before
  have hLate := (h.expires_after_grace hClock (Round.expires_of_flushes hFlush hStays)).2.2.2 a
    (List.mem_append_right _ ha) (List.ne_nil_of_mem (of_decide_eq_true haMark))
  have hOrder : s.now ≤ b.now := by
    have hTail := (List.pairwise_append.mp hClock).2.1
    exact (List.pairwise_cons.mp hTail).1 b (List.mem_append_left _ hb)
  omega

/-- The first flush after a burst bumps its root once. -/
theorem Run.count_calls_after_burst {before burst mid rest : List Round} {s : Round} {root : Path}
    (h : Run roots grace (before ++ burst ++ (mid ++ s :: rest)) fate)
    (hClock : MonotoneClock (before ++ burst ++ (mid ++ s :: rest)))
    (hBurst : Burst grace root burst) (hMid : ∀ m ∈ mid, m.flushes = false)
    (hFlush : s.flushes = true) : s.calls.count root = 1 := by
  have hWithin := h.no_flush_in_burst hClock hBurst
  obtain ⟨first, others, rfl, hMark⟩ := hBurst.first
  have hCut : before ++ first :: others ++ (mid ++ s :: rest) =
      (before ++ [first] ++ (others ++ mid)) ++ s :: rest := by
    simp
  rw [hCut] at h
  -- the first mark of the burst stays open until that flush
  have hCurrent : root ∈ (ledger (before ++ [first] ++ (others ++ mid))).current := by
    refine mem_current_append (mem_current_of_mem_marks hMark) ?_
    intro r hr
    rcases List.mem_append.mp hr with hOthers | hMids
    · exact hWithin r (List.mem_cons_of_mem _ hOthers)
    · exact hMid r hMids
  rw [h.calls_eq hFlush, count_eraseDups, if_pos hCurrent]

/-! ## What moves the deadline, and what does not -/

/-- A quiet change neither arms the deadline nor moves nor disarms it. -/
theorem Coalescer.deadline_of_quiet {c : Coalescer} {d : Disk} {change : Change} (now : Nat)
    (h : Quiet c.roots d change) : (c.handleChange d now change).1.deadline = c.deadline := by
  rw [handleChange_deadline, marked?_of_quiet h]
  rfl

/-- A round that receives nothing but quiet changes, or a failure. -/
def Round.Quiet (r : Round) : Prop :=
  (∃ error, r.turn.action = .received (.failure error)) ∨
    ∃ event, r.turn.action = .received (.event event) ∧
      ∀ change ∈ (classify r.disk event).1, Coalescer.Quiet r.loop.coalescer.roots r.disk change

theorem Round.deadline_of_quiet {r : Round} (h : r.Quiet) :
    r.turn.loop.coalescer.deadline = r.loop.coalescer.deadline := by
  rw [r.deadline_eq]
  unfold Round.flushes Round.marks
  rcases h with ⟨error, hAction⟩ | ⟨event, hAction, hChanges⟩
  · rw [hAction]
    rfl
  · rw [hAction]
    show (if r.loop.coalescer.marks r.disk r.now event = [] then r.loop.coalescer.deadline
      else some (r.now + r.loop.coalescer.grace.toNat)) = r.loop.coalescer.deadline
    rw [Coalescer.marks, Coalescer.marksOfChanges_of_quiet hChanges, if_pos rfl]

/--
**Debounce.** In every run with a monotone clock, whatever messages arrive and whenever:

* a flush on the deadline comes no earlier than a grace period after the last mark of any root,
  and only when no message is waiting and nothing ends the loop;
* no flush, and so no bump of any root, divides a burst of marks of one root that follow each
  other within less than the grace period, and the first flush after the burst bumps that root
  exactly once; if the loop returns, there is one;
* rounds with quiet changes only and rounds with failures leave the deadline alone, and so does
  each quiet change by itself, whatever else its event reports.
-/
theorem flushes_are_debounced (h : Run roots grace rounds fate) (hClock : MonotoneClock rounds) :
    (∀ before r after, rounds = before ++ r :: after → r.expires = true →
      r.loop.inbox = [] ∧ r.loop.cancelled = false ∧ r.loop.closed = false ∧
        ∀ s ∈ before, s.marks ≠ [] → s.now + grace.toNat ≤ r.now) ∧
    (∀ root before burst after, rounds = before ++ burst ++ after → Burst grace root burst →
      (∀ s ∈ burst, s.flushes = false ∧ s.calls = []) ∧
      (∀ mid s rest, after = mid ++ s :: rest → (∀ m ∈ mid, m.flushes = false) →
        s.flushes = true → s.calls.count root = 1) ∧
      (fate = .returned → ∃ mid s rest, after = mid ++ s :: rest ∧
        (∀ m ∈ mid, m.flushes = false) ∧ s.flushes = true)) ∧
    (∀ r ∈ rounds, r.Quiet → r.turn.loop.coalescer.deadline = r.loop.coalescer.deadline) ∧
    (∀ (c : Coalescer) (d : Disk) (now : Nat) (change : Change), Coalescer.Quiet c.roots d change →
      (c.handleChange d now change).1.deadline = c.deadline) := by
  refine ⟨?_, ?_, fun r _ hQuiet => r.deadline_of_quiet hQuiet,
    fun c d now change hQuiet => Coalescer.deadline_of_quiet now hQuiet⟩
  · intro before r after hEq hExpires
    subst hEq
    exact h.expires_after_grace hClock hExpires
  · intro root before burst after hEq hBurst
    subst hEq
    have hWithin := h.no_flush_in_burst hClock hBurst
    refine ⟨fun s hs => ⟨hWithin s hs, Round.calls_of_not_flushes (hWithin s hs)⟩, ?_, ?_⟩
    · intro mid s rest hEq hMid hFlush
      subst hEq
      exact h.count_calls_after_burst hClock hBurst hMid hFlush
    · intro hFate
      subst hFate
      obtain ⟨init, last, rfl, hMark⟩ := hBurst.last
      -- the last mark of the burst is open after it, and a loop that returns leaves none open
      rw [← List.append_assoc before] at h
      rcases exists_flush_of_mem_current after h (mem_current_of_mem_marks hMark) with
        hLeft | ⟨mid, s, rest, hEq, hMid, hFlush, -⟩
      · rw [h.current_of_returned] at hLeft
        simp at hLeft
      · exact ⟨mid, s, rest, hEq, hMid, hFlush⟩

/-- In the sample run the two writes are a burst, and the flush that covers them bumps their root
once. -/
theorem sample_flushes_are_debounced :
    MonotoneClock [Sample.first, Sample.second, Sample.expiry, Sample.exit] ∧
      Burst 10 Sample.root [Sample.first, Sample.second] ∧
      Sample.second.now + (10 : UInt64).toNat ≤ Sample.expiry.now ∧
      Sample.expiry.calls.count Sample.root = 1 := by
  have hClock : MonotoneClock [Sample.first, Sample.second, Sample.expiry, Sample.exit] := by
    simp [MonotoneClock, Sample.first, Sample.second, Sample.expiry, Sample.exit]
  have hFirst : Sample.root ∈ Sample.first.marks := by decide
  have hSecond : Sample.root ∈ Sample.second.marks := by decide
  have hBurst : Burst 10 Sample.root [Sample.first, Sample.second] := by
    refine ⟨⟨_, _, rfl, hFirst⟩, ⟨[Sample.first], _, rfl, hSecond⟩, ?_⟩
    rw [List.filter_cons_of_pos (by simpa using hFirst),
      List.filter_cons_of_pos (by simpa using hSecond)]
    exact List.isChain_cons_cons.mpr ⟨by decide, List.isChain_singleton _⟩
  obtain ⟨hExpiry, hBursts, -, -⟩ := flushes_are_debounced Sample.run hClock
  refine ⟨hClock, hBurst, ?_, ?_⟩
  · have hLate := hExpiry [Sample.first, Sample.second] Sample.expiry [Sample.exit] rfl rfl
    exact hLate.2.2.2 Sample.second (by simp) (List.ne_nil_of_mem hSecond)
  · have hOnce := (hBursts Sample.root [] _ _ rfl hBurst).2.1
    exact hOnce [] Sample.expiry [Sample.exit] rfl (by simp) rfl

end TreeWatch
