import TreeWatch.Path.Basic

/-!
# Comparison of paths

Paths are compared by their components. Having the same components is an equivalence, and what a
path contains or lies in is settled by its components alone.
-/

namespace TreeWatch.Path

/-! ## Same components -/

theorem SameAs.refl (p : Path) : p.SameAs p :=
  rfl

theorem SameAs.symm {p q : Path} (h : p.SameAs q) : q.SameAs p :=
  Eq.symm h

theorem SameAs.trans {p q r : Path} (h : p.SameAs q) (h' : q.SameAs r) : p.SameAs r :=
  Eq.trans h h'

theorem sameAs_congr_right {p q r : Path} (h : q.SameAs r) : p.SameAs q ↔ p.SameAs r :=
  ⟨fun hpq => hpq.trans h, fun hpr => hpr.trans h.symm⟩

/-! ## Prefixes by component -/

theorem startsWith_iff {p q : Path} :
    p.startsWith q = true ↔ q.components <+: p.components := by
  rw [startsWith, List.isPrefixOf_iff_prefix]

/-- What contains a path is settled by the components of the container. -/
theorem startsWith_congr {p q r : Path} (h : q.SameAs r) :
    p.startsWith q = p.startsWith r := by
  unfold SameAs at h
  unfold startsWith
  rw [h]

/-- What lies below another path is settled by its components, too. -/
theorem startsWith_congr_left {p q r : Path} (h : p.SameAs q) :
    p.startsWith r = q.startsWith r := by
  unfold SameAs at h
  unfold startsWith
  rw [h]

end TreeWatch.Path
