/-!
# Pieces of a path

A path is a text with slashes; its pieces are what stands between them, empty pieces included. So
there is always one piece more than there are slashes, and putting the slashes back between the
pieces gives the text again (`join_split`).
-/

namespace TreeWatch.Pieces

/-- The pieces of a sequence between the occurrences of a separator. -/
def split {α : Type} [DecidableEq α] (separator : α) : List α → List (List α)
  | [] => [[]]
  | c :: rest =>
    if c = separator then [] :: split separator rest
    else
      match split separator rest with
      | [] => [[c]]
      | piece :: pieces => (c :: piece) :: pieces

/-- The sequence with the separator between its pieces. -/
def join {α : Type} (separator : α) : List (List α) → List α
  | [] => []
  | [piece] => piece
  | piece :: next :: pieces => piece ++ separator :: join separator (next :: pieces)

theorem split_ne_nil {α : Type} [DecidableEq α] (separator : α) (s : List α) :
    split separator s ≠ [] := by
  cases s with
  | nil => simp [split]
  | cons c rest =>
    simp only [split]
    split
    · simp
    · split <;> simp

/-- Nothing is lost by splitting. -/
theorem join_split {α : Type} [DecidableEq α] (separator : α) (s : List α) :
    join separator (split separator s) = s := by
  induction s with
  | nil => rfl
  | cons c rest ih =>
    simp only [split]
    by_cases h : c = separator
    · simp only [h, if_true]
      cases hs : split separator rest with
      | nil => exact absurd hs (split_ne_nil separator rest)
      | cons piece pieces => simp [join, ← hs, ih]
    · simp only [h, if_false]
      cases hs : split separator rest with
      | nil => exact absurd hs (split_ne_nil separator rest)
      | cons piece pieces =>
        rw [hs] at ih
        cases pieces with
        | nil => simpa [join] using ih
        | cons next more => simpa [join] using ih

end TreeWatch.Pieces
