import TreeWatch.Path.Basic

/-!
# Lists of paths without repeats

A list is made free of repeats by keeping, of the paths with the same components, the first as
spelled.
-/

namespace TreeWatch.Path

/-- Adds a path to a list, unless one with the same components is in it. -/
def addNew (kept : List Path) (p : Path) : List Path :=
  if kept.any fun q => decide (q.SameAs p) then kept else kept ++ [p]

/-- The list without repeats. -/
def dedup (paths : List Path) : List Path :=
  paths.foldl addNew []

end TreeWatch.Path
