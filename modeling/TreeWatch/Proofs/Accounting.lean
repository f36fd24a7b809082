import Mathlib.Data.List.Nodup
import TreeWatch.Proofs.Rounds

/-!
# Accounting: every mark is paid for by one bump

A run marks roots when it handles events and bumps counters when it flushes. The two sides are
compared flush interval by flush interval: an interval that contains marks of a root contributes
one bump of it, an interval that contains none contributes none, and once the loop has returned
no interval is left open.

Main results:

* `count_calls` — over a run, the bumps of a root are the closed intervals that mark it;
* `exists_flush_of_mem_current` — a mark is lost only if no flush follows it;
* `bumps_account_for_marks` — exactly-once accounting of a whole run.
-/

namespace TreeWatch

variable {roots : List Path} {grace : UInt64} {rounds : List Round} {fate : Fate}

/-! ## Counting by interval -/

theorem count_eraseDups (root : Path) (marks : List Path) :
    marks.eraseDups.count root = if root ∈ marks then 1 else 0 := by
  induction marks using List.reverseRecOn with
  | nil => rfl
  | append_singleton init last ih =>
    -- the last mark counts only if its root was not marked before
    rw [List.eraseDups_append, List.count_append, ih]
    by_cases hLast : last ∈ init
    · by_cases hRoot : root = last
      · simp [List.removeAll, hLast, hRoot]
      · simp [List.removeAll, hLast, hRoot]
    · by_cases hRoot : root = last
      · simp [List.removeAll, hLast, hRoot, List.eraseDups_cons]
      · simp [List.removeAll, hLast, hRoot, Ne.symm hRoot, List.eraseDups_cons]

/-- The bumps of a root are as many as the closed intervals that mark it. -/
theorem count_calls (h : Run roots grace rounds fate) (root : Path) :
    (rounds.flatMap Round.calls).count root =
      (ledger rounds).closed.countP fun marks => decide (root ∈ marks) := by
  induction h with
  | start => rfl
  | wait _ _ ih => exact ih
  | @turn rounds r hRun ih =>
    -- a flush closes an interval and bumps its roots, once each
    have hHere : Run roots grace (rounds ++ [r]) r.fate := .turn r hRun
    rw [List.flatMap_append, List.count_append, ih, ledger_concat, Ledger.add,
      List.flatMap_singleton]
    cases hFlush : r.flushes with
    | true =>
      rw [hHere.calls_eq hFlush, count_eraseDups]
      simp [List.countP_append, List.countP_cons]
    | false =>
      rw [Round.calls_of_not_flushes hFlush]
      rfl

/-! ## No mark is lost -/

/-- A mark that is not covered yet is covered by the next flush, if there is one. -/
theorem exists_flush_of_mem_current {root : Path} (after : List Round) :
    ∀ {before : List Round}, Run roots grace (before ++ after) fate →
      root ∈ (ledger before).current →
      root ∈ (ledger (before ++ after)).current ∨
        ∃ mid s rest, after = mid ++ s :: rest ∧ (∀ m ∈ mid, m.flushes = false) ∧
          s.flushes = true ∧ root ∈ s.calls := by
  induction after with
  | nil =>
    intro before _ hRoot
    rw [List.append_nil]
    exact Or.inl hRoot
  | cons r rest ih =>
    intro before hRun hRoot
    cases hFlush : r.flushes with
    | true =>
      -- this round flushes, and bumps what is open
      refine Or.inr ⟨[], r, rest, rfl, by simp, hFlush, ?_⟩
      rw [hRun.calls_eq hFlush, List.mem_eraseDups]
      exact hRoot
    | false =>
      -- no flush yet, so the mark is still open after this round
      rw [List.append_cons] at hRun ⊢
      have hStill : root ∈ (ledger (before ++ [r])).current :=
        mem_current_append hRoot (by simpa using hFlush)
      -- the rounds that follow cover it, or it is open at the end
      rcases ih hRun hStill with hEnd | ⟨mid, s, rest, rfl, hMid, hs, hCall⟩
      · exact Or.inl hEnd
      · refine Or.inr ⟨r :: mid, s, rest, rfl, ?_, hs, hCall⟩
        intro m hm
        rcases List.mem_cons.mp hm with rfl | hm
        · exact hFlush
        · exact hMid m hm

/-- In a run that returned, every mark is followed by a bump of its root. -/
theorem exists_call_of_mem_marks (h : Run roots grace rounds .returned)
    {before after : List Round} {r : Round} {root : Path} (hEq : rounds = before ++ r :: after)
    (hRoot : root ∈ r.marks) : ∃ s ∈ after, root ∈ s.calls := by
  subst hEq
  have hRun := h
  rw [List.append_cons] at hRun
  -- a loop that has returned leaves no mark open
  rcases exists_flush_of_mem_current after hRun (mem_current_of_mem_marks hRoot) with
    hLeft | ⟨mid, s, rest, rfl, -, -, hCall⟩
  · rw [hRun.current_of_returned] at hLeft
    simp at hLeft
  · exact ⟨s, by simp, hCall⟩

/-! ## No bump is made up -/

/-- What is in the current interval was marked by some round. -/
theorem exists_mark_of_mem_current {root : Path} (h : root ∈ (ledger rounds).current) :
    ∃ r ∈ rounds, root ∈ r.marks := by
  induction rounds using List.reverseRecOn with
  | nil => simp [ledger] at h
  | append_singleton init last ih =>
    rw [ledger_concat, Ledger.add] at h
    split at h
    · simp at h
    · rcases List.mem_append.mp h with hOld | hHere
      · obtain ⟨r, hr, hRoot⟩ := ih hOld
        exact ⟨r, List.mem_append_left _ hr, hRoot⟩
      · exact ⟨last, by simp, hHere⟩

/-- A bump is made on behalf of an earlier mark of the same root. -/
theorem exists_mark_of_mem_calls {before after : List Round} {r : Round} {root : Path}
    (h : Run roots grace (before ++ r :: after) fate) (hCall : root ∈ r.calls) :
    ∃ s ∈ before, root ∈ s.marks := by
  cases hFlush : r.flushes with
  | true =>
    rw [h.calls_eq hFlush, List.mem_eraseDups] at hCall
    exact exists_mark_of_mem_current hCall
  | false =>
    rw [Round.calls_of_not_flushes hFlush] at hCall
    simp at hCall

/-- The roots of a flush are different by component too, not only as they are spelled. -/
theorem calls_pairwise {before after : List Round} {r : Round}
    (h : Run roots grace (before ++ r :: after) fate) (hFlush : r.flushes = true) :
    r.calls.Pairwise fun p q => ¬ p.SameAs q := by
  have hResolved := h.settled_at.resolved
  rw [h.calls_eq hFlush]
  have hNodup : (ledger before).current.eraseDups.Nodup := by
    rw [List.nodup_iff_count_le_one]
    intro root
    rw [count_eraseDups]
    split <;> omega
  -- both roots were chosen by attribution, which knows one spelling of each
  refine hNodup.imp_of_mem ?_
  intro p q hp hq hNe hSame
  obtain ⟨_, hpFound⟩ := hResolved p (List.mem_eraseDups.mp hp)
  obtain ⟨_, hqFound⟩ := hResolved q (List.mem_eraseDups.mp hq)
  exact hNe (resolveRoot_eq_of_sameAs hpFound hqFound hSame)

/-! ## The whole run -/

/--
**Exactly-once accounting.** In every run, whatever the order of messages, failures, deadlines and
orders to stop:

* a flush bumps each root that was marked since the previous flush once, in the order of the first
  mark of each, and no other root; outside flushes nothing is bumped, and a root that was never
  marked is never bumped;
* these bumps are made one after another, each on what the one before it left, and a turn of the
  loop does nothing else to the disk;
* when the loop has returned, every mark is followed by a bump of its root, there was a flush on
  the way out exactly if something was marked since the previous one, and the bumps of a root are
  as many as the flush intervals that mark it.
-/
theorem bumps_account_for_marks (h : Run roots grace rounds fate) :
    (∀ before r after, rounds = before ++ r :: after →
      (r.flushes = true → r.calls = (ledger before).current.eraseDups ∧
        r.calls.Pairwise fun p q => ¬ p.SameAs q) ∧
      (r.flushes = false → r.calls = []) ∧
      (∀ root ∈ r.calls, ∃ s ∈ before, root ∈ s.marks) ∧
      BumpedInTurn r.hazard r.disk r.results r.turn.disk) ∧
    (fate = .returned →
      (∀ before r after, rounds = before ++ r :: after →
        ∀ root ∈ r.marks, ∃ s ∈ after, root ∈ s.calls) ∧
      (∃ before r, rounds = before ++ [r] ∧ r.leaves = true ∧
        (r.flushes = true ↔ (ledger before).current ≠ [])) ∧
      ∀ root, (rounds.flatMap Round.calls).count root =
        (intervals rounds).countP fun marks => decide (root ∈ marks)) := by
  -- flush by flush, and then the run as a whole
  refine ⟨?_, ?_⟩
  · intro before r after hEq
    subst hEq
    exact ⟨fun hFlush => ⟨h.calls_eq hFlush, calls_pairwise h hFlush⟩,
      Round.calls_of_not_flushes, fun root hCall => exists_mark_of_mem_calls h hCall, r.inTurn⟩
  · intro hFate
    subst hFate
    refine ⟨?_, ?_, ?_⟩
    · intro before r after hEq root hRoot
      exact exists_call_of_mem_marks h hEq hRoot
    · obtain ⟨before, r, rfl, hLeaves⟩ := h.last_of_returned rfl
      exact ⟨before, r, rfl, hLeaves, h.flushes_iff_of_left hLeaves⟩
    · intro root
      -- the last interval is empty, and marks nothing that the closed ones do not
      rw [count_calls h root, intervals, h.current_of_returned, List.countP_append]
      simp

/-- In the sample run two marks of one root in one flush interval are paid for by one bump. -/
theorem bumps_account_for_sample_marks :
    Run [Sample.root] 10 [Sample.first, Sample.second, Sample.expiry, Sample.exit] .returned ∧
      ([Sample.first, Sample.second, Sample.expiry, Sample.exit].flatMap Round.calls).count
          Sample.root = 1 ∧
      ([Sample.first, Sample.second, Sample.expiry, Sample.exit].flatMap Round.marks).count
          Sample.root = 2 := by
  refine ⟨Sample.run, ?_, by rfl⟩
  rw [((bumps_account_for_marks Sample.run).2 rfl).2.2 Sample.root]
  rfl

end TreeWatch
