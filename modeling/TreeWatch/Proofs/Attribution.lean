import Mathlib.Data.List.Induction
import TreeWatch.Attribution
import TreeWatch.Proofs.Paths

/-!
# Attribution: which root a path is given

`resolveRoot` folds over the roots that contain a path and keeps the deepest, the later one on a
tie. All roots that contain one path and are equally deep have the same components, so the root
chosen is the last of the list with its components, and this does not depend on the path. Two
choices with the same components are therefore the same entry of the list, spelling included.

Main results:

* `resolveRoot_mem` / `resolveRoot_startsWith` — the choice is a root of the list and contains
  the path;
* `resolveRoot_getLast` — it is the last root of the list with its components;
* `resolveRoot_eq_of_sameAs` — choices for two paths that agree by component are equal.
-/

namespace TreeWatch

/-! ## The fold -/

/-- One more root at the end of the list: it is chosen if it contains the path and is at least as
deep as the choice so far. -/
theorem resolveRoot_concat (path : Path) (roots : List Path) (root : Path) :
    resolveRoot path (roots ++ [root]) =
      if path.startsWith root then deeper (resolveRoot path roots) root
      else resolveRoot path roots := by
  unfold resolveRoot
  rw [List.filter_append, List.foldl_append]
  by_cases h : path.startsWith root = true
  · simp [h]
  · simp [h]

theorem resolveRoot_mem_startsWith {path : Path} (roots : List Path) :
    ∀ {root : Path}, resolveRoot path roots = some root →
      root ∈ roots ∧ path.startsWith root = true := by
  induction roots using List.reverseRecOn with
  | nil =>
    intro root h
    simp [resolveRoot] at h
  | append_singleton init last ih =>
    intro root h
    -- the choice is the last root, or one made before it
    rw [resolveRoot_concat] at h
    by_cases hLast : path.startsWith last = true
    · rw [if_pos hLast] at h
      cases hBest : resolveRoot path init with
      | none =>
        rw [hBest, deeper, Option.some.injEq] at h
        subst h
        exact ⟨by simp, hLast⟩
      | some best =>
        rw [hBest, deeper] at h
        split at h
        · rw [Option.some.injEq] at h
          subst h
          exact ⟨by simp, hLast⟩
        · rw [Option.some.injEq] at h
          subst h
          obtain ⟨hMem, hIn⟩ := ih hBest
          exact ⟨List.mem_append_left _ hMem, hIn⟩
    · rw [if_neg hLast] at h
      obtain ⟨hMem, hIn⟩ := ih h
      exact ⟨List.mem_append_left _ hMem, hIn⟩

theorem resolveRoot_mem {path : Path} {roots : List Path} {root : Path}
    (h : resolveRoot path roots = some root) : root ∈ roots :=
  (resolveRoot_mem_startsWith roots h).1

theorem resolveRoot_startsWith {path : Path} {roots : List Path} {root : Path}
    (h : resolveRoot path roots = some root) : path.startsWith root = true :=
  (resolveRoot_mem_startsWith roots h).2

/-- The choice is the last root of the list with its components. -/
theorem resolveRoot_getLast {path : Path} (roots : List Path) :
    ∀ {root : Path}, resolveRoot path roots = some root →
      (roots.filter fun q => decide (q.SameAs root)).getLast? = some root := by
  induction roots using List.reverseRecOn with
  | nil =>
    intro root h
    simp [resolveRoot] at h
  | append_singleton init last ih =>
    intro root h
    rw [List.filter_append]
    have hIn := resolveRoot_startsWith h
    rw [resolveRoot_concat] at h
    -- whether the last root is the choice, or has other components than the choice
    have hCases : last = root ∨ ¬ last.SameAs root ∧ resolveRoot path init = some root := by
      by_cases hLast : path.startsWith last = true
      · rw [if_pos hLast] at h
        cases hBest : resolveRoot path init with
        | none =>
          rw [hBest, deeper, Option.some.injEq] at h
          exact Or.inl h
        | some best =>
          rw [hBest, deeper] at h
          split at h
          · rw [Option.some.injEq] at h
            exact Or.inl h
          · rename_i hShorter
            rw [Option.some.injEq] at h
            subst h
            refine Or.inr ⟨fun hSame => hShorter ?_, rfl⟩
            exact Nat.le_of_eq (congrArg List.length hSame.symm)
      · rw [if_neg hLast] at h
        refine Or.inr ⟨fun hSame => hLast ?_, h⟩
        rw [Path.startsWith_congr hSame]
        exact hIn
    -- either way it is the last of its components
    rcases hCases with rfl | ⟨hOther, hInit⟩
    · simp [Path.SameAs]
    · simp [hOther, ih hInit]

/-- Choices with the same components are the same, spelling included. -/
theorem resolveRoot_eq_of_sameAs {p q : Path} {roots : List Path} {root other : Path}
    (h : resolveRoot p roots = some root) (h' : resolveRoot q roots = some other)
    (hSame : root.SameAs other) : root = other := by
  have hLast := resolveRoot_getLast roots h
  have hLast' := resolveRoot_getLast roots h'
  have hFilter : (fun s : Path => decide (s.SameAs root)) = fun s => decide (s.SameAs other) := by
    funext s
    exact decide_eq_decide.mpr (Path.sameAs_congr_right hSame)
  rw [hFilter, hLast'] at hLast
  exact (Option.some.inj hLast).symm

end TreeWatch
