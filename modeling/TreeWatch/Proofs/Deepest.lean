import Mathlib.Data.List.Pairwise
import TreeWatch.Proofs.Attribution
import TreeWatch.Proofs.Dedup

/-!
# Attribution to the deepest root

A root is chosen by how many components it has. All roots that contain one path are beginnings of
its components, so they lie within each other like links of a chain: the one with the most
components is the one that lies within all others. Two roots with as many have the same components
and differ in their spelling only, so neither the order of a list nor dropping its repeats changes
which directory is chosen.

Main results:

* `resolveRoot_eq_none` — no root is chosen if and only if none contains the path;
* `resolveRoot_deepest` — the choice lies within every root that contains the path;
* `Deepest.sameAs` — there is one such root, up to its spelling.
-/

namespace TreeWatch

variable {path root other : Path} {roots others : List Path}

/-! ## Roots that contain one path -/

/-- Of two roots that contain a path, the one with at least as many components lies within the
other. -/
theorem Path.startsWith_of_length_le (hRoot : path.startsWith root = true)
    (hOther : path.startsWith other = true)
    (hLength : other.components.length ≤ root.components.length) :
    root.startsWith other = true := by
  rw [Path.startsWith_iff] at *
  exact List.prefix_of_prefix_length_le hOther hRoot hLength

/-- Paths that lie within each other have the same components. -/
theorem Path.SameAs.of_startsWith (hRoot : root.startsWith other = true)
    (hOther : other.startsWith root = true) : root.SameAs other := by
  rw [Path.startsWith_iff] at hRoot hOther
  exact hOther.eq_of_length (Nat.le_antisymm hOther.length_le hRoot.length_le)

/-! ## The choice -/

theorem deeper_eq_some (best : Option Path) (root : Path) : ∃ chosen,
    deeper best root = some chosen ∧ root.components.length ≤ chosen.components.length ∧
      ∀ other, best = some other → other.components.length ≤ chosen.components.length := by
  cases best with
  | none => exact ⟨root, rfl, Nat.le_refl _, by simp⟩
  | some best =>
    by_cases hLength : best.components.length ≤ root.components.length
    · exact ⟨root, if_pos hLength, Nat.le_refl _, by simpa using hLength⟩
    · exact ⟨best, if_neg hLength, by omega, by simp⟩

/-- A list with a root that contains the path has a choice, with at least as many components. -/
theorem exists_resolveRoot (hMem : other ∈ roots) (hIn : path.startsWith other = true) :
    ∃ root, resolveRoot path roots = some root ∧
      other.components.length ≤ root.components.length := by
  induction roots using List.reverseRecOn with
  | nil => cases hMem
  | append_singleton init last ih =>
    rw [resolveRoot_concat]
    by_cases hLast : path.startsWith last = true
    · obtain ⟨chosen, hChosen, hDepth, hBefore⟩ := deeper_eq_some (resolveRoot path init) last
      rw [if_pos hLast]
      refine ⟨chosen, hChosen, ?_⟩
      rcases List.mem_append.mp hMem with hInit | hHere
      · obtain ⟨best, hBest, hLength⟩ := ih hInit
        exact Nat.le_trans hLength (hBefore best hBest)
      · rwa [List.mem_singleton.mp hHere]
    · -- the last root is passed over, so the one at hand came before it
      rw [if_neg hLast]
      rcases List.mem_append.mp hMem with hInit | hHere
      · exact ih hInit
      · exact absurd (List.mem_singleton.mp hHere ▸ hIn) hLast

/-- A root of a list that contains a path, and lies within every root of the list that does. -/
structure Deepest (path : Path) (roots : List Path) (root : Path) : Prop where
  listed : root ∈ roots
  contains : path.startsWith root = true
  within : ∀ other ∈ roots, path.startsWith other = true → root.startsWith other = true

/-- **The choice** lies within every root that contains the path. -/
theorem resolveRoot_deepest (h : resolveRoot path roots = some root) :
    Deepest path roots root where
  listed := resolveRoot_mem h
  contains := resolveRoot_startsWith h
  within other hMem hIn := by
    obtain ⟨chosen, hChosen, hLength⟩ := exists_resolveRoot hMem hIn
    rw [h, Option.some.injEq] at hChosen
    exact Path.startsWith_of_length_le (resolveRoot_startsWith h) hIn (hChosen ▸ hLength)

theorem resolveRoot_eq_none :
    resolveRoot path roots = none ↔ ∀ root ∈ roots, path.startsWith root = false := by
  constructor
  · intro hNone root hMem
    by_contra hIn
    obtain ⟨chosen, hChosen, -⟩ := exists_resolveRoot hMem (Bool.not_eq_false _ ▸ hIn)
    rw [hNone] at hChosen
    cases hChosen
  · intro hOut
    cases hChoice : resolveRoot path roots with
    | none => rfl
    | some root =>
      have hIn := hOut root (resolveRoot_mem hChoice)
      rw [resolveRoot_startsWith hChoice] at hIn
      cases hIn

/-! ## Other lists with the same roots -/

/-- Every root of the one list is in the other, in some spelling. -/
def RespelledIn (roots others : List Path) : Prop :=
  ∀ root ∈ roots, ∃ other ∈ others, other.SameAs root

/-- The deepest root lies within all roots that are listed in some spelling. -/
theorem Deepest.within_spelled (h : Deepest path roots root) (hSpelled : RespelledIn others roots)
    (hMem : other ∈ others) (hIn : path.startsWith other = true) :
    root.startsWith other = true := by
  obtain ⟨again, hAgain, hSame⟩ := hSpelled other hMem
  rw [← Path.startsWith_congr hSame] at hIn ⊢
  exact h.within again hAgain hIn

/-- **There is one deepest root**, up to its spelling. -/
theorem Deepest.sameAs (h : Deepest path roots root) (h' : Deepest path others other)
    (hSpelled : RespelledIn roots others) (hBack : RespelledIn others roots) : root.SameAs other :=
  .of_startsWith (h.within_spelled hBack h'.listed h'.contains)
    (h'.within_spelled hSpelled h.listed h.contains)

/-- Lists with the same roots, in whatever spelling and order, choose the same directory. -/
theorem resolveRoot_spelled (path : Path) (hSpelled : RespelledIn roots others)
    (hBack : RespelledIn others roots) :
    Option.Rel Path.SameAs (resolveRoot path roots) (resolveRoot path others) := by
  cases hRoot : resolveRoot path roots with
  | none =>
    have hNone : resolveRoot path others = none := resolveRoot_eq_none.mpr fun other hMem => by
      obtain ⟨root, hListed, hSame⟩ := hBack other hMem
      rw [← Path.startsWith_congr hSame]
      exact resolveRoot_eq_none.mp hRoot root hListed
    rw [hNone]
    exact .none
  | some root =>
    cases hOther : resolveRoot path others with
    | none =>
      obtain ⟨other, hListed, hSame⟩ := hSpelled root (resolveRoot_mem hRoot)
      have hOut := resolveRoot_eq_none.mp hOther other hListed
      rw [Path.startsWith_congr hSame, resolveRoot_startsWith hRoot] at hOut
      cases hOut
    | some other =>
      exact .some ((resolveRoot_deepest hRoot).sameAs (resolveRoot_deepest hOther) hSpelled hBack)

theorem respelledIn_of_subset (h : roots ⊆ others) : RespelledIn roots others :=
  fun root hMem => ⟨root, h hMem, Path.SameAs.refl root⟩

/-- In a list without repeats the choice is the same entry, whatever the order. -/
theorem resolveRoot_perm (path : Path) (hApart : roots.Pairwise fun p q => ¬ p.SameAs q)
    (hPerm : others.Perm roots) : resolveRoot path others = resolveRoot path roots := by
  have hRel := resolveRoot_spelled path (respelledIn_of_subset hPerm.subset)
    (respelledIn_of_subset hPerm.symm.subset)
  generalize hOther : resolveRoot path others = chosen at hRel ⊢
  generalize hRoot : resolveRoot path roots = again at hRel ⊢
  cases hRel with
  | none => rfl
  | some hSame =>
    -- both are members of one list in which nothing comes twice
    have hSymm : Std.Symm fun p q : Path => ¬ p.SameAs q := ⟨fun _ _ h hSame => h hSame.symm⟩
    have hListed := hPerm.subset (resolveRoot_mem hOther)
    exact congrArg some <| by_contra fun hNe =>
      hApart.forall hListed (resolveRoot_mem hRoot) hNe hSame

/-- **The deepest root is chosen.** No root is chosen if and only if none contains the path; the
choice is a root of the list that contains the path and lies within all others that do. If no two
roots have the same components it is the same for every order of the list, and without repeats the
choice has the same components. -/
theorem deepest_root_is_chosen (path : Path) (roots : List Path) :
    (resolveRoot path roots = none ↔ ∀ root ∈ roots, path.startsWith root = false) ∧
      (∀ root, resolveRoot path roots = some root → Deepest path roots root) ∧
      (roots.Pairwise (fun p q => ¬ p.SameAs q) →
        ∀ others, others.Perm roots → resolveRoot path others = resolveRoot path roots) ∧
      Option.Rel Path.SameAs (resolveRoot path (Path.dedup roots)) (resolveRoot path roots) := by
  refine ⟨resolveRoot_eq_none, fun _ => resolveRoot_deepest,
    fun hApart _ => resolveRoot_perm path hApart, ?_⟩
  exact resolveRoot_spelled path (respelledIn_of_subset fun _ => Path.mem_of_mem_dedup)
    fun _ => Path.exists_mem_dedup

/-- Nested roots, one that is a beginning of another by letters only, and one without components,
which contains every path. -/
def nestedRoots : List Path :=
  [⟨"/srv/a"⟩, ⟨"/srv//a/b/"⟩, ⟨"/srv/a/bc"⟩, ⟨""⟩]

/-- The deeper of two nested roots is chosen, whichever comes first. -/
theorem nested_roots_in_any_order :
    resolveRoot ⟨"/srv/a/./b/c"⟩ nestedRoots = some ⟨"/srv//a/b/"⟩ ∧
      Deepest ⟨"/srv/a/./b/c"⟩ nestedRoots ⟨"/srv//a/b/"⟩ ∧
      nestedRoots.Pairwise (fun p q => ¬ p.SameAs q) ∧
      nestedRoots.reverse.Perm nestedRoots ∧
      resolveRoot ⟨"/srv/a/./b/c"⟩ nestedRoots.reverse = some ⟨"/srv//a/b/"⟩ := by
  have hChoice : resolveRoot ⟨"/srv/a/./b/c"⟩ nestedRoots = some ⟨"/srv//a/b/"⟩ := by
    decide +kernel
  have hApart : nestedRoots.Pairwise fun p q => ¬ p.SameAs q := by decide +kernel
  have hPerm : nestedRoots.reverse.Perm nestedRoots := nestedRoots.reverse_perm
  obtain ⟨-, hDeepest, hOrder, -⟩ := deepest_root_is_chosen ⟨"/srv/a/./b/c"⟩ nestedRoots
  exact ⟨hChoice, hDeepest _ hChoice, hApart, hPerm, (hOrder hApart _ hPerm).trans hChoice⟩

end TreeWatch
