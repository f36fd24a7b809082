import TreeWatch.Proofs.Places

/-!
# Following absolute paths

Where every name of a path stands for a directory, following it gets to the place of the same
names, however the path is spelled: empty pieces and `.` stay where they are. One more name leads
to the entry under it, whatever that is. The system refuses paths that are too long or hold a NUL;
all others are `Usable`.

Main results:
  * `Disk.WellFormed.find_dir`: a path to a directory
  * `Disk.WellFormed.linkStat_join`: a path to any entry
-/

namespace TreeWatch

/-- The system takes the path. -/
structure Path.Usable (p : Path) : Prop where
  noNul : 0 ∉ p.native.bytes
  short : p.native.size < Disk.maxPath

namespace Disk

variable {d : Disk} {p : Path} {names : List String} {name : String} {ending : Ending} {e : Entry}

theorem usable_of_locate {spot : Spot} (h : d.locate ending p.native = .ok spot) : p.Usable := by
  unfold locate at h
  split at h
  · cases h
  · next hNul =>
    split at h
    · cases h
    · split at h
      · cases h
      · next hLong => exact ⟨hNul, Nat.lt_of_not_le hLong⟩

theorem usable_of_linkStat (h : d.linkStat p.native = .ok e) : p.Usable := by
  unfold linkStat find at h
  cases hLocate : d.locate .entry p.native with
  | error fault =>
    rw [hLocate] at h
    cases h
  | ok spot => exact usable_of_locate hLocate

/-! ## Through directories -/

/-- The piece of a spelling as a name. -/
def pieceName (piece : List Char) : Name :=
  .text (String.ofList piece)

theorem component?_eq_none {piece : List Char} (h : Path.component? piece = none) :
    pieceName piece = Route.here ∨ pieceName piece = Route.slash := by
  unfold Path.component? at h
  split at h
  · next hEmpty =>
    rcases hEmpty with rfl | rfl
    · exact Or.inr rfl
    · exact Or.inl rfl
  · split at h <;> cases h

theorem pieceName_eq_iff {piece : List Char} {s : String} :
    pieceName piece = .text s ↔ piece = s.toList := by
  unfold pieceName
  rw [ByteString.text.injEq, ← String.toList_inj, String.toList_ofList]

theorem component?_eq_name {piece : List Char} (h : Path.component? piece = some (.name name)) :
    pieceName piece = .text name ∧
      ¬ (pieceName piece = Route.here ∨ pieceName piece = Route.slash) ∧
      pieceName piece ≠ Route.up := by
  unfold Path.component? at h
  split at h
  · cases h
  · next hSilent =>
    split at h
    · cases h
    · next hUp =>
      cases h
      obtain ⟨hEmpty, hHere⟩ := not_or.mp hSilent
      refine ⟨rfl, not_or.mpr ⟨?_, ?_⟩, ?_⟩
      · exact fun hEq => hHere (pieceName_eq_iff.mp hEq)
      · exact fun hEq => hEmpty (pieceName_eq_iff.mp hEq)
      · exact fun hEq => hUp (pieceName_eq_iff.mp hEq)

/-- Pieces that stand for directories lead through them. -/
theorem trail_through (hEnding : ending ≠ .creation) (rest : List Name) :
    ∀ (pieces : List (List Char)) (place : Place) (names : List String),
      pieces.filterMap Path.component? = names.map .name →
      (∀ front, front ≠ [] → front <+: names →
        d.get? (place ++ front.map .text) = some .dir) →
      (∀ name ∈ names, (ByteString.text name).size ≤ maxName) →
      d.trail ending place (pieces.map pieceName ++ rest) =
        d.trail ending (place ++ names.map .text) rest
  | [], place, names, hNames, _, _ => by
    cases names with
    | nil => rw [List.map_nil, List.nil_append, List.map_nil, List.append_nil]
    | cons name more => cases hNames
  | piece :: pieces, place, names, hNames, hDirs, hShort => by
    rw [List.map_cons, List.cons_append, trail]
    cases hPiece : Path.component? piece with
    | none =>
      -- nothing is said, and the place stays
      rw [List.filterMap_cons_none hPiece] at hNames
      rw [if_pos (component?_eq_none hPiece)]
      exact trail_through hEnding rest pieces place names hNames hDirs hShort
    | some c =>
      rw [List.filterMap_cons_some hPiece] at hNames
      -- the piece is the next name, and a directory stands under it
      cases names with
      | nil => cases hNames
      | cons name more =>
        obtain ⟨rfl, hMore⟩ := List.cons.inj hNames
        obtain ⟨hName, hSaid, hUp⟩ := component?_eq_name hPiece
        have hDir : d.get? (place ++ [.text name]) = some .dir :=
          hDirs [name] (by simp) ⟨more, rfl⟩
        have hSize := hShort name List.mem_cons_self
        rw [if_neg hSaid, if_neg hUp, if_neg fun h => hEnding h.1, hName,
          if_neg (Nat.not_lt.mpr hSize)]
        dsimp only
        rw [hDir]
        have hNext := trail_through hEnding rest pieces (place ++ [.text name]) more hMore
          (fun front hFront hPrefix => by
            have hLonger := hDirs (name :: front) (by simp) (List.cons_prefix_cons.mpr
              ⟨rfl, hPrefix⟩)
            rwa [List.map_cons, List.append_cons] at hLonger)
          fun other hOther => hShort other (List.mem_cons_of_mem _ hOther)
        rwa [List.append_assoc, List.singleton_append] at hNext

/-! ## Absolute paths -/

/-- The route of an absolute spelling: the pieces that are not empty, and the last one. -/
theorem route_of_absolute {front : List (List Char)} {last : List Char}
    (h : Pieces.split '/' p.spelling.toList = [] :: (front ++ [last])) :
    Route.ofByteString p.native =
      ⟨true, (front.filter (· ≠ [])).map pieceName ++ [pieceName last]⟩ := by
  have hPieces : (Pieces.split '/' p.spelling.toList).map pieceName =
      (Route.slash :: front.map pieceName) ++ [pieceName last] := by
    rw [h, List.map_cons, List.map_append]
    rfl
  have hInner : (Route.slash :: front.map pieceName).filter (· ≠ Route.slash) =
      (front.filter (· ≠ [])).map pieceName := by
    rw [List.filter_cons_of_neg (by simp), List.filter_map]
    congr 2
    funext piece
    exact decide_eq_decide.mpr (not_congr pieceName_eq_iff)
  show Route.ofPieces ((Pieces.split '/' p.spelling.toList).map pieceName) = _
  unfold Route.ofPieces
  rw [hPieces, List.dropLast_concat, hInner, List.getLastD_concat]
  simp

theorem locate_of_usable {front : List (List Char)} {last : List Char} (hUsable : p.Usable)
    (h : Pieces.split '/' p.spelling.toList = [] :: (front ++ [last])) :
    d.locate ending p.native = d.follow ending maxLinks []
      ((front.filter (· ≠ [])).map pieceName ++ [pieceName last]) := by
  have hSpelling : p.native ≠ .text "" := by
    intro hEq
    have hNil : p.spelling = "" := ByteString.text.inj hEq
    rw [hNil] at h
    simp [Pieces.split] at h
  unfold locate
  rw [if_neg hUsable.noNul, if_neg hSpelling, if_neg (Nat.not_le.mpr hUsable.short)]
  dsimp only
  rw [route_of_absolute h]
  rfl

/-- A usable path is found where its trail arrives. -/
theorem find_of_arrived {front : List (List Char)} {last : List Char} {place : Place}
    (hUsable : p.Usable) (h : Pieces.split '/' p.spelling.toList = [] :: (front ++ [last]))
    (hTrail : d.trail ending [] ((front.filter (· ≠ [])).map pieceName ++ [pieceName last]) =
      .arrived place) : d.find ending p.native = .ok place := by
  unfold find
  rw [locate_of_usable hUsable h, follow.eq_def]
  dsimp only
  rw [hTrail]
  rfl

theorem filterMap_filter_nonempty (pieces : List (List Char)) :
    (pieces.filter (· ≠ [])).filterMap Path.component? = pieces.filterMap Path.component? := by
  rw [List.filterMap_filter]
  congr 1
  funext piece
  by_cases hEmpty : piece = []
  · simp [hEmpty, Path.component?]
  · simp [hEmpty]

/-- The names of a place that is there are short, and lead through directories. -/
theorem WellFormed.through (h : d.WellFormed) (hDir : d.get? (names.map .text) = some .dir) :
    (∀ front, front ≠ [] → front <+: names → d.get? ([] ++ front.map .text) = some .dir) ∧
      ∀ name ∈ names, (ByteString.text name).size ≤ maxName := by
  constructor
  · rintro front - ⟨rest, rfl⟩
    rw [List.nil_append]
    rw [List.map_append] at hDir
    by_cases hRest : rest.map ByteString.text = []
    · rwa [hRest, List.append_nil] at hDir
    · exact h.ancestor hRest hDir
  · intro name hName
    exact (h.valid_of_get? hDir (.text name) (List.mem_map_of_mem hName)).short

/-- **A path to a directory** is followed to its place. -/
theorem WellFormed.find_dir (h : d.WellFormed) (hLeads : p.Leads names) (hUsable : p.Usable)
    (hDir : d.get? (names.map .text) = some .dir) (hEnding : ending ≠ .creation) :
    d.find ending p.native = .ok (names.map .text) := by
  obtain ⟨rest, hRest⟩ := hLeads.absolute
  have hSplit : Pieces.split '/' p.spelling.toList = [] :: Pieces.split '/' rest := by
    rw [hRest, Pieces.split, if_pos rfl]
  have hNames := (List.cons.inj ((Path.components_of_absolute hRest).symm.trans hLeads)).2
  -- the last piece may be empty, all empty ones before it are passed over
  rcases List.eq_nil_or_concat (Pieces.split '/' rest) with hNil | ⟨front, last, hPieces⟩
  · exact absurd hNil (Pieces.split_ne_nil '/' rest)
  · rw [hPieces, List.concat_eq_append] at hSplit hNames
    rw [List.filterMap_append, ← filterMap_filter_nonempty, ← List.filterMap_append] at hNames
    obtain ⟨hDirs, hShort⟩ := h.through hDir
    -- the trail goes through all names and ends there
    have hTrail := trail_through hEnding [] _ [] names hNames hDirs hShort
    rw [List.append_nil, List.map_append, List.map_singleton, List.nil_append] at hTrail
    exact find_of_arrived hUsable hSplit hTrail

/-- **One name more** leads to whatever stands under it. -/
theorem WellFormed.linkStat_join (h : d.WellFormed) (hLeads : p.Leads names)
    (hName : IsName name) (hUsable : (p.join ⟨name⟩).Usable)
    (hEntry : d.get? ((names ++ [name]).map .text) = some e) :
    d.linkStat (p.join ⟨name⟩).native = .ok e := by
  obtain ⟨front, hSplit, hNames⟩ := hLeads.split_join hName
  rw [← filterMap_filter_nonempty] at hNames
  rw [List.map_append, List.map_singleton] at hEntry
  have hDir : d.get? (names.map .text) = some .dir := h.ancestor (by simp) hEntry
  obtain ⟨hDirs, hShort⟩ := h.through hDir
  have hTrail : d.trail .entry [] _ = _ := trail_through (by simp) [pieceName name.toList] _ []
    names hNames hDirs hShort
  obtain ⟨hSame, hSaid, hUp⟩ := component?_eq_name hName.piece
  have hSize := (h.valid_of_get? hEntry (.text name) (by simp)).short
  -- the last name is not followed: what stands there is the answer
  have hLast : d.trail .entry (names.map .text) [pieceName name.toList] =
      .arrived (names.map .text ++ [.text name]) := by
    rw [trail, if_neg hSaid, if_neg hUp, if_neg (by simp), hSame, if_neg (Nat.not_lt.mpr hSize)]
    dsimp only
    rw [hEntry]
    cases e with
    | dir => rfl
    | file contents | link target | socket | device => simp
  have hFind := find_of_arrived hUsable hSplit (hTrail.trans hLast)
  unfold linkStat
  rw [hFind]
  show Except.ok ((d.get? _).getD .dir) = _
  rw [hEntry]
  rfl

end Disk

end TreeWatch
