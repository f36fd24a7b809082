import TreeWatch.Path.Set
import TreeWatch.Proofs.Components

/-!
# Sets of paths

In the order of keys everything below a path stands together, so cutting out the run that starts
at a path is the same as filtering: it drops the members below the path, in whatever spelling, and
keeps all others in order.

Main results:
  * `PathSet.runFrom_eq`, `PathSet.cut_eq`: a run is what lies below, and cutting keeps the rest
  * `PathSet.contains_insert`, `PathSet.contains_cut`: the members afterwards
-/

namespace TreeWatch

/-! ## Monotone conditions -/

section Monotone

variable {α : Type} {P : α → Bool}

/-- A condition that holds up to some point of a list only. -/
def Initial (P : α → Bool) (l : List α) : Prop :=
  l.Pairwise fun x y => P y = true → P x = true

theorem Initial.takeWhile_eq {l : List α} (h : Initial P l) : l.takeWhile P = l.filter P := by
  induction l with
  | nil => rfl
  | cons x l ih =>
    obtain ⟨hFirst, hRest⟩ := List.pairwise_cons.mp h
    cases hHere : P x with
    | true => rw [List.takeWhile_cons_of_pos hHere, List.filter_cons_of_pos hHere, ih hRest]
    | false =>
      -- once the condition fails it fails for good
      have hNone : ∀ y ∈ l, ¬ P y = true := fun y hy hPy => by
        rw [hFirst y hy hPy] at hHere
        cases hHere
      rw [List.takeWhile_cons_of_neg (by simp [hHere]), List.filter_cons_of_neg (by simp [hHere]),
        List.filter_eq_nil_iff.mpr hNone]

theorem Initial.dropWhile_eq {l : List α} (h : Initial P l) :
    l.dropWhile P = l.filter fun x => !P x := by
  induction l with
  | nil => rfl
  | cons x l ih =>
    obtain ⟨hFirst, hRest⟩ := List.pairwise_cons.mp h
    cases hHere : P x with
    | true =>
      rw [List.dropWhile_cons_of_pos hHere, List.filter_cons_of_neg (by simp [hHere]), ih hRest]
    | false =>
      have hAll : ∀ y ∈ l, (!P y) = true := fun y hy => by
        cases hPy : P y with
        | false => rfl
        | true =>
          rw [hFirst y hy hPy] at hHere
          cases hHere
      rw [List.dropWhile_cons_of_neg (by simp [hHere]), List.filter_cons_of_pos (by simp [hHere]),
        List.filter_eq_self.mpr hAll]

end Monotone

/-! ## The order of keys -/

/-- Between a list and its extensions there are only extensions of it. -/
theorem prefix_of_between {t : List (List Nat)} :
    ∀ {p : List (List Nat)} {q : List (List Nat)}, ¬ q < p → q < p ++ t → p <+: q
  | [], _, _, _ => List.nil_prefix
  | a :: p, [], hNotBefore, _ => absurd (List.nil_lt_cons a p) hNotBefore
  | a :: p, b :: q, hNotBefore, hBefore => by
    rw [List.cons_lt_cons_iff, not_or] at hNotBefore
    rw [List.cons_append, List.cons_lt_cons_iff] at hBefore
    -- neither list is ahead at the first element, so the rest decides
    have hHead : b = a ∧ q < p ++ t := hBefore.resolve_left hNotBefore.1
    have hRest : ¬ q < p := fun hLt => hNotBefore.2 ⟨hHead.1, hLt⟩
    rw [hHead.1, List.cons_prefix_cons]
    exact ⟨rfl, prefix_of_between hRest hHead.2⟩

theorem not_append_lt : ∀ p t : List (List Nat), ¬ p ++ t < p
  | [], _ => List.not_lt_nil _
  | a :: p, t => by
    rw [List.cons_append, List.cons_lt_cons_iff]
    rintro (hHead | ⟨-, hRest⟩)
    · exact List.lt_irrefl a hHead
    · exact not_append_lt p t hRest

namespace Path

/-- A path is not before one it lies below. -/
theorem not_below_of_startsWith {p q : Path} (h : q.startsWith p = true) : ¬ q.Below p := by
  obtain ⟨t, hKey⟩ := startsWith_iff_key.mp h
  unfold Below
  rw [← hKey]
  exact not_append_lt p.key t

/-- What lies below a path stands together. -/
theorem startsWith_of_between {p q r : Path} (hStart : ¬ q.Below p) (hOrder : q.Below r)
    (hEnd : r.startsWith p = true) : q.startsWith p = true := by
  obtain ⟨t, hKey⟩ := startsWith_iff_key.mp hEnd
  refine startsWith_iff_key.mpr (prefix_of_between hStart (t := t) ?_)
  rw [hKey]
  exact hOrder

end Path

namespace PathSet

variable (s : PathSet) (p q : Path)

theorem below_initial : Initial (fun q => decide (q.Below p)) s.toList := by
  refine s.ordered.imp fun {x y} hOrder hBelow => ?_
  rw [decide_eq_true_eq] at hBelow ⊢
  exact List.lt_trans hOrder hBelow

theorem startsWith_initial : Initial (fun q => q.startsWith p)
    (s.toList.filter fun q => !decide (q.Below p)) := by
  refine (s.ordered.filter _).imp_of_mem fun {x y} hx _ hOrder hEnd => ?_
  have hStart : ¬ x.Below p := by simpa using (List.mem_filter.mp hx).2
  exact Path.startsWith_of_between hStart hOrder hEnd

/-- **A run** is what lies below the path it starts at. -/
theorem runFrom_eq : s.runFrom p = s.toList.filter fun q => q.startsWith p := by
  unfold runFrom
  rw [(s.below_initial p).dropWhile_eq, (s.startsWith_initial p).takeWhile_eq, List.filter_filter]
  -- nothing that lies below the path comes before it
  refine List.filter_congr fun q _ => ?_
  cases hStarts : q.startsWith p with
  | false => rfl
  | true => simp [Path.not_below_of_startsWith hStarts]

/-- **Cutting** keeps what does not lie below the path, in order. -/
theorem cut_eq : (s.cut p).toList = s.toList.filter fun q => !q.startsWith p := by
  have hFront : (s.toList.takeWhile fun q => decide (q.Below p)).filter
      (fun q => !q.startsWith p) = s.toList.takeWhile fun q => decide (q.Below p) := by
    rw [(s.below_initial p).takeWhile_eq, List.filter_eq_self]
    intro q hq
    have hBelow : q.Below p := by simpa using (List.mem_filter.mp hq).2
    cases hStarts : q.startsWith p with
    | false => rfl
    | true => exact absurd hBelow (Path.not_below_of_startsWith hStarts)
  conv =>
    rhs
    rw [← List.takeWhile_append_dropWhile (p := fun q => decide (q.Below p)) (l := s.toList)]
  -- the front stays as a whole; of what follows the run at its start goes
  rw [List.filter_append, hFront, (s.below_initial p).dropWhile_eq,
    ← (s.startsWith_initial p).dropWhile_eq]
  show s.toList.takeWhile _ ++ _ = _
  rw [(s.below_initial p).dropWhile_eq]

theorem contains_iff : s.contains p = true ↔ ∃ q ∈ s.toList, q.SameAs p := by
  simp [contains]

theorem contains_congr {p q : Path} (h : p.SameAs q) : s.contains p = s.contains q := by
  unfold contains
  congr 1
  funext r
  exact decide_eq_decide.mpr (Path.sameAs_congr_right h)

/-- Two paths have the same components, or one comes before the other. -/
theorem below_trichotomy (p q : Path) : p.Below q ∨ p.SameAs q ∨ q.Below p := by
  unfold Path.Below
  rw [Path.sameAs_iff_key]
  by_cases hBefore : p.key < q.key
  · exact Or.inl hBefore
  · by_cases hAfter : q.key < p.key
    · exact Or.inr (Or.inr hAfter)
    · exact Or.inr (Or.inl (List.le_antisymm hAfter hBefore))

/-- Inserting a path that is not a member puts it beside the others. -/
theorem insert_perm (h : s.contains p = false) : (s.insert p).toList.Perm (p :: s.toList) := by
  have hUpper : s.upper p = s.toList.filter fun q => !decide (q.Below p) := by
    refine List.filter_congr fun q hq => ?_
    have hOther : ¬ q.SameAs p := fun hSame => by
      rw [(s.contains_iff p).mpr ⟨q, hq, hSame⟩] at h
      cases h
    rw [← decide_not, decide_eq_decide]
    constructor
    · exact fun hAbove hBelow => List.lt_irrefl _ (List.lt_trans hAbove hBelow)
    · exact fun hNotBelow => ((below_trichotomy q p).resolve_left hNotBelow).resolve_left hOther
  show (s.lower p ++ p :: s.upper p).Perm _
  rw [hUpper]
  exact List.perm_middle.trans ((List.filter_append_perm _ s.toList).cons p)

/-- A run and what stays when it is cut out are all members. -/
theorem runFrom_append_cut_perm : (s.runFrom p ++ (s.cut p).toList).Perm s.toList := by
  rw [runFrom_eq, cut_eq]
  exact List.filter_append_perm _ s.toList

/-- Inserting a path adds it, and nothing else. -/
theorem contains_insert :
    (s.insert p).contains q = true ↔ s.contains q = true ∨ p.SameAs q := by
  rw [contains_iff, contains_iff]
  show (∃ r ∈ s.lower p ++ p :: s.upper p, r.SameAs q) ↔ _
  constructor
  · rintro ⟨r, hr, hSame⟩
    rcases List.mem_append.mp hr with hr | hr
    · exact Or.inl ⟨r, (List.mem_filter.mp hr).1, hSame⟩
    · rcases List.mem_cons.mp hr with rfl | hr
      · exact Or.inr hSame
      · exact Or.inl ⟨r, (List.mem_filter.mp hr).1, hSame⟩
  · rintro (⟨r, hr, hSame⟩ | hSame)
    · -- the members before and after the path stay, and one with its components is replaced
      rcases below_trichotomy r p with hBelow | hEqual | hAbove
      · exact ⟨r, List.mem_append_left _ (List.mem_filter.mpr ⟨hr, decide_eq_true hBelow⟩), hSame⟩
      · exact ⟨p, List.mem_append_right _ List.mem_cons_self, hEqual.symm.trans hSame⟩
      · refine ⟨r, List.mem_append_right _ (List.mem_cons_of_mem _ ?_), hSame⟩
        exact List.mem_filter.mpr ⟨hr, decide_eq_true hAbove⟩
    · exact ⟨p, List.mem_append_right _ List.mem_cons_self, hSame⟩

/-- Cutting drops what lies below the path, and nothing else. -/
theorem contains_cut :
    (s.cut p).contains q = true ↔ s.contains q = true ∧ q.startsWith p = false := by
  rw [contains_iff, contains_iff, cut_eq]
  constructor
  · rintro ⟨r, hr, hSame⟩
    obtain ⟨hMember, hStarts⟩ := List.mem_filter.mp hr
    refine ⟨⟨r, hMember, hSame⟩, ?_⟩
    rw [← Path.startsWith_congr_left hSame]
    simpa using hStarts
  · rintro ⟨⟨r, hr, hSame⟩, hStarts⟩
    refine ⟨r, List.mem_filter.mpr ⟨hr, ?_⟩, hSame⟩
    rw [Path.startsWith_congr_left hSame, hStarts]
    rfl

end PathSet

end TreeWatch
