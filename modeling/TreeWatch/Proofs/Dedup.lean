import Mathlib.Data.List.Induction
import TreeWatch.Path.Dedup
import TreeWatch.Proofs.Paths

/-!
# Lists without repeats

What is left of a list of paths once repeats are dropped: no two paths agree by component, every
path of the list is there in some spelling, and so there is one as soon as the list has any.

Main results:
  * `dedup_pairwise`: no two paths of the list without repeats agree
  * `dedup_cons`: of the paths that agree the first is left
  * `dedup_eq_self`: a list without repeats stays as it is
  * `mem_of_mem_dedup`, `exists_mem_dedup`: the paths that are left, in some spelling
  * `dedup_eq_nil`: only the empty list has nothing left
-/

namespace TreeWatch.Path

theorem dedup_concat (paths : List Path) (p : Path) :
    dedup (paths ++ [p]) = addNew (dedup paths) p := by
  rw [dedup, List.foldl_append]
  rfl

theorem addNew_cons {p : Path} (kept : List Path) (q : Path) :
    addNew (p :: kept) q = if p.SameAs q then p :: kept else p :: addNew kept q := by
  unfold addNew
  by_cases hSame : p.SameAs q
  · simp [hSame]
  · simp only [List.any_cons, hSame, decide_false, Bool.false_or, if_false]
    split <;> rfl

/-- The first path of a list is kept, and its repeats are dropped. -/
theorem dedup_cons (p : Path) (paths : List Path) :
    dedup (p :: paths) = p :: dedup (paths.filter fun q => !decide (p.SameAs q)) := by
  induction paths using List.reverseRecOn with
  | nil => rfl
  | append_singleton init last ih =>
    rw [← List.cons_append, dedup_concat, ih, addNew_cons, List.filter_append]
    by_cases hSame : p.SameAs last
    · rw [if_pos hSame, List.filter_cons_of_neg (by simp [hSame]), List.filter_nil,
        List.append_nil]
    · rw [if_neg hSame, List.filter_cons_of_pos (by simp [hSame]), List.filter_nil, dedup_concat]

theorem addNew_pairwise {kept : List Path} (h : kept.Pairwise fun p q => ¬ p.SameAs q) (p : Path) :
    (addNew kept p).Pairwise fun p q => ¬ p.SameAs q := by
  unfold addNew
  split
  · exact h
  · next hNew =>
    refine List.pairwise_append.mpr ⟨h, List.pairwise_singleton _ _, fun q hq r hr hSame => hNew ?_⟩
    rw [List.mem_singleton.mp hr] at hSame
    exact List.any_eq_true.mpr ⟨q, hq, by simpa using hSame⟩

/-- No two paths agree in a list without repeats. -/
theorem dedup_pairwise (paths : List Path) :
    (dedup paths).Pairwise fun p q => ¬ p.SameAs q := by
  induction paths using List.reverseRecOn with
  | nil => exact .nil
  | append_singleton init last ih =>
    rw [dedup_concat]
    exact addNew_pairwise ih last

/-- A list without repeats stays as it is. -/
theorem dedup_eq_self {paths : List Path} (h : paths.Pairwise fun p q => ¬ p.SameAs q) :
    dedup paths = paths := by
  induction paths using List.reverseRecOn with
  | nil => rfl
  | append_singleton init last ih =>
    obtain ⟨hInit, -, hApart⟩ := List.pairwise_append.mp h
    have hNew : ¬ (init.any fun q => decide (q.SameAs last)) = true := by
      intro hKnown
      obtain ⟨q, hq, hSame⟩ := List.any_eq_true.mp hKnown
      exact hApart q hq last (List.mem_singleton_self _) (by simpa using hSame)
    rw [dedup_concat, ih hInit, addNew, if_neg hNew]

theorem mem_addNew {kept : List Path} {p q : Path} (h : q ∈ addNew kept p) :
    q ∈ kept ∨ q = p := by
  unfold addNew at h
  split at h
  · exact Or.inl h
  · simpa using h

theorem exists_addNew {kept : List Path} {p q : Path} (h : q ∈ kept ∨ q = p) :
    ∃ r ∈ addNew kept p, r.SameAs q := by
  unfold addNew
  split
  · next hKnown =>
    rcases h with hKept | rfl
    · exact ⟨q, hKept, SameAs.refl q⟩
    · obtain ⟨r, hr, hSame⟩ := List.any_eq_true.mp hKnown
      exact ⟨r, hr, by simpa using hSame⟩
  · exact ⟨q, by simpa using h, SameAs.refl q⟩

/-- What is left was in the list. -/
theorem mem_of_mem_dedup {paths : List Path} {p : Path} (h : p ∈ dedup paths) : p ∈ paths := by
  induction paths using List.reverseRecOn with
  | nil => exact h
  | append_singleton init last ih =>
    rw [dedup_concat] at h
    rcases mem_addNew h with hInit | rfl
    · exact List.mem_append_left _ (ih hInit)
    · exact List.mem_append_right _ (List.mem_singleton_self _)

/-- Of every path of the list some spelling is left. -/
theorem exists_mem_dedup {paths : List Path} {p : Path} (h : p ∈ paths) :
    ∃ q ∈ dedup paths, q.SameAs p := by
  induction paths using List.reverseRecOn with
  | nil => cases h
  | append_singleton init last ih =>
    rw [dedup_concat]
    rcases List.mem_append.mp h with hInit | hLast
    · obtain ⟨q, hq, hSame⟩ := ih hInit
      obtain ⟨r, hr, hAgain⟩ := exists_addNew (p := last) (Or.inl hq)
      exact ⟨r, hr, hAgain.trans hSame⟩
    · exact exists_addNew (Or.inr (List.mem_singleton.mp hLast))

theorem addNew_ne_nil (kept : List Path) (p : Path) : addNew kept p ≠ [] := by
  unfold addNew
  split
  · next hKnown =>
    obtain ⟨q, hq, -⟩ := List.any_eq_true.mp hKnown
    exact List.ne_nil_of_mem hq
  · simp

@[simp] theorem dedup_eq_nil {paths : List Path} : dedup paths = [] ↔ paths = [] := by
  induction paths using List.reverseRecOn with
  | nil => exact Iff.rfl
  | append_singleton init last ih =>
    rw [dedup_concat]
    simp [addNew_ne_nil]

end TreeWatch.Path
