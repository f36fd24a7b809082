import TreeWatch.Path.Basic

/-!
# Sets of paths

A set of paths in the order of their components. No two members have the same components, and each
keeps the spelling it came with. In that order everything below a path follows it without a gap,
so what lies below can be cut out as one run (`runFrom`), without looking at the other members.
-/

namespace TreeWatch

namespace Path

/-- The order of paths in a set. -/
def Below (p q : Path) : Prop :=
  p.key < q.key

instance (p q : Path) : Decidable (p.Below q) :=
  inferInstanceAs (Decidable (p.key < q.key))

end Path

/-- Paths in ascending order. -/
structure PathSet where
  toList : List Path := []
  ordered : toList.Pairwise Path.Below := by exact List.Pairwise.nil

namespace PathSet

instance : Inhabited PathSet :=
  ⟨{}⟩

/-- How many members there are. -/
def size (s : PathSet) : Nat :=
  s.toList.length

/-- Whether a path, in this or another spelling, is a member. -/
def contains (s : PathSet) (p : Path) : Bool :=
  s.toList.any fun q => decide (q.SameAs p)

/-- The members that come before a path. -/
def lower (s : PathSet) (p : Path) : List Path :=
  s.toList.filter fun q => decide (q.Below p)

/-- The members that come after a path. -/
def upper (s : PathSet) (p : Path) : List Path :=
  s.toList.filter fun q => decide (p.Below q)

/-- The set with a path; a member with the same components makes room for it. -/
def insert (s : PathSet) (p : Path) : PathSet where
  toList := s.lower p ++ p :: s.upper p
  ordered := by
    refine List.pairwise_append.2 ⟨s.ordered.filter _, ?_, ?_⟩
    · refine List.pairwise_cons.2 ⟨fun q hq => ?_, s.ordered.filter _⟩
      exact of_decide_eq_true (List.mem_filter.1 hq).2
    · intro q hq r hr
      have hqp : q.Below p := of_decide_eq_true (List.mem_filter.1 hq).2
      rcases List.mem_cons.1 hr with rfl | hr
      · exact hqp
      · have hpr : p.Below r := of_decide_eq_true (List.mem_filter.1 hr).2
        exact List.lt_trans hqp hpr

/-- The run of members that starts where a path belongs and goes on for as long as they lie below
it. -/
def runFrom (s : PathSet) (p : Path) : List Path :=
  (s.toList.dropWhile fun q => decide (q.Below p)).takeWhile fun q => q.startsWith p

/-- The set without that run. -/
def cut (s : PathSet) (p : Path) : PathSet where
  toList := (s.toList.takeWhile fun q => decide (q.Below p)) ++
    (s.toList.dropWhile fun q => decide (q.Below p)).dropWhile fun q => q.startsWith p
  ordered := by
    have h : List.Sublist ((s.toList.takeWhile fun q => decide (q.Below p)) ++
        (s.toList.dropWhile fun q => decide (q.Below p)).dropWhile fun q => q.startsWith p)
        s.toList := by
      conv =>
        rhs
        rw [← List.takeWhile_append_dropWhile (p := fun q => decide (q.Below p)) (l := s.toList)]
      exact (List.Sublist.refl _).append (List.dropWhile_sublist _)
    exact s.ordered.sublist h

end PathSet

end TreeWatch
