import TreeWatch.Path.Basic

/-!
# Attribution to a root

A changed path belongs to the root directory that contains it. Roots may be nested; then the deepest
one counts. Of roots with the same components, the last in the list does.
-/

namespace TreeWatch

/-- Of two roots the one with more components, the later one if they have as many. -/
def deeper (best : Option Path) (root : Path) : Option Path :=
  match best with
  | none => some root
  | some other =>
    if other.components.length ≤ root.components.length then some root else some other

/-- The root that contains a path. -/
def resolveRoot (path : Path) (roots : List Path) : Option Path :=
  (roots.filter path.startsWith).foldl deeper none

end TreeWatch
