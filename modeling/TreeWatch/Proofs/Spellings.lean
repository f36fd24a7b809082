import TreeWatch.Proofs.Routes

/-!
# Spellings of paths

What a path says is in its components, however it is spelled. A name joined to any path is one
component more (`Path.components_join`); the parent of that has the components of the path again,
whatever it was spelled like. The steps of a path are the names that it goes through, without those
that say nothing.

Main results:
  * `Path.components_join`, `Path.components_under`, `Path.parent_join`: one name more, several, and
    one less
  * `Path.route_native`: the route that a path describes
-/

namespace TreeWatch

/-! ## Pieces -/

namespace Pieces

variable {α : Type} [DecidableEq α]

theorem not_mem_of_mem_split {separator : α} {s piece : List α} (h : piece ∈ split separator s) :
    separator ∉ piece := by
  induction s generalizing piece with
  | nil =>
    rw [split, List.mem_singleton] at h
    simp [h]
  | cons c rest ih =>
    rw [split] at h
    split at h
    · rcases List.mem_cons.mp h with rfl | hRest
      · simp
      · exact ih hRest
    · next hElse =>
      split at h
      · next hNone => exact absurd hNone (split_ne_nil separator rest)
      · next first pieces hSplit =>
        rw [hSplit] at ih
        rcases List.mem_cons.mp h with rfl | hRest
        · rw [List.mem_cons, not_or]
          exact ⟨Ne.symm hElse, ih List.mem_cons_self⟩
        · exact ih (List.mem_cons_of_mem _ hRest)

/-- Pieces that hold no separator come back. -/
theorem split_join_cons {separator : α} {first : List α} {rest : List (List α)}
    (h : ∀ piece ∈ first :: rest, separator ∉ piece) :
    split separator (join separator (first :: rest)) = first :: rest := by
  induction rest generalizing first with
  | nil => exact split_of_not_mem (h first List.mem_cons_self)
  | cons next more ih =>
    rw [join, split_append, split_of_not_mem (h first List.mem_cons_self),
      ih fun piece hPiece => h piece (List.mem_cons_of_mem _ hPiece)]
    rfl

/-- The first piece is empty at the start of nothing and before a separator. -/
theorem split_head? (separator : α) (s : List α) :
    (split separator s).head? = some [] ↔ s = [] ∨ s.head? = some separator := by
  cases s with
  | nil => simp [split]
  | cons c rest =>
    rw [split]
    split
    · next hHere => simp [hHere]
    · next hElse =>
      split
      · simp [hElse]
      · simp [hElse]

end Pieces

namespace Path

variable {p q : Path} {name : String}

/-! ## Joining a name -/

/-- The pieces of a path with one name more: that name comes last, and before it come the pieces of
the path, up to an empty one at its end. -/
theorem split_join (p : Path) (hName : IsName name) : ∃ front,
    Pieces.split '/' (p.join ⟨name⟩).spelling.toList = front ++ [name.toList] ∧
      (Pieces.split '/' p.spelling.toList = front ++ [[]] ∨
        Pieces.split '/' p.spelling.toList = front ∧ p.spelling.toList ≠ []) := by
  have hRelative : (⟨name⟩ : Path).isAbsolute = false := by
    unfold isAbsolute
    cases hChars : name.toList with
    | nil => rfl
    | cons c cs =>
      have hNoSlash := hName.noSlash
      rw [hChars, List.mem_cons, not_or] at hNoSlash
      simpa using Ne.symm hNoSlash.1
  have hPiece := Pieces.split_of_not_mem hName.noSlash
  unfold Path.join
  rw [if_neg (by simp [hRelative])]
  split
  · next hEnd =>
    -- nothing comes before the name, or a slash does
    rcases hEnd with hEmpty | hSlash
    · refine ⟨[], ?_, Or.inl (by rw [hEmpty]; rfl)⟩
      rw [String.toList_append, hEmpty, List.nil_append, hPiece, List.nil_append]
    · obtain ⟨body, hBody⟩ := List.getLast?_eq_some_iff.mp hSlash
      refine ⟨Pieces.split '/' body, ?_, Or.inl ?_⟩
      · rw [String.toList_append, hBody, List.append_assoc, List.singleton_append,
          Pieces.split_append, hPiece]
      · rw [hBody, Pieces.split_append]
        rfl
  · next hEnd =>
    refine ⟨Pieces.split '/' p.spelling.toList, ?_, Or.inr ⟨rfl, fun hNil => hEnd (Or.inl hNil)⟩⟩
    have hSpelling : (p.spelling ++ "/" ++ name).toList =
        p.spelling.toList ++ '/' :: name.toList := by
      simp
    rw [hSpelling, Pieces.split_append, hPiece]

/-- The components of the first piece of a path that is not empty. -/
def leading (first : List Char) : List Component :=
  if first = [] then [.root]
  else if first = ['.'] then [.here]
  else (component? first).toList

theorem componentsOf_cons {s first : List Char} {rest : List (List Char)}
    (hSplit : Pieces.split '/' s = first :: rest) (hSome : first = [] → rest ≠ []) :
    componentsOf s = leading first ++ rest.filterMap component? := by
  unfold componentsOf leading
  rw [hSplit]
  dsimp only
  split
  · next hFirst => rw [if_neg (hSome hFirst)]; rfl
  · split
    · rfl
    · cases hPiece : component? first with
      | none => rw [List.filterMap_cons_none hPiece]; rfl
      | some c => rw [List.filterMap_cons_some hPiece]; rfl

theorem leading_name (hName : IsName name) : leading name.toList = [.name name] := by
  have hPiece := hName.piece
  unfold leading
  rw [if_neg hName.ne_nil, if_neg, hPiece]
  · rfl
  · intro hHere
    rw [hHere] at hPiece
    cases hPiece

/-- **One name more** is one component more. -/
theorem components_join (p : Path) (hName : IsName name) :
    (p.join ⟨name⟩).components = p.components ++ [.name name] := by
  obtain ⟨front, hSplit, hFront⟩ := p.split_join hName
  unfold components
  cases front with
  | nil =>
    -- there is nothing before the name
    have hNone : p.spelling.toList = [] := by
      rcases hFront with hEmpty | ⟨hEmpty, -⟩
      · rw [← Pieces.join_split '/' p.spelling.toList, hEmpty]
        rfl
      · exact absurd hEmpty (Pieces.split_ne_nil _ _)
    rw [List.nil_append] at hSplit
    rw [componentsOf_cons hSplit fun hNil => absurd hNil hName.ne_nil, leading_name hName, hNone]
    rfl
  | cons first more =>
    rw [List.cons_append] at hSplit
    rw [componentsOf_cons hSplit (by simp), List.filterMap_append,
      List.filterMap_cons_some hName.piece, List.filterMap_nil, ← List.append_assoc]
    congr 1
    rcases hFront with hSlash | ⟨hAll, hSome⟩
    · rw [componentsOf_cons hSlash (by simp)]
      simp [component?]
    · rw [componentsOf_cons hAll]
      rintro rfl rfl
      rw [← Pieces.join_split '/' p.spelling.toList, hAll] at hSome
      exact hSome rfl

/-- **Several names more** are as many components more. -/
theorem components_under {p : Path} : ∀ {names : List String}, (∀ name ∈ names, IsName name) →
    (p.under names).components = p.components ++ names.map .name
  | [], _ => (List.append_nil _).symm
  | name :: rest, hNames => by
    have hRest := components_under (p := p.join ⟨name⟩) fun other hOther =>
      hNames other (List.mem_cons_of_mem _ hOther)
    rw [components_join p (hNames name List.mem_cons_self), List.append_assoc] at hRest
    exact hRest

theorem fileName?_join (p : Path) (hName : IsName name) :
    (p.join ⟨name⟩).fileName? = some name := by
  unfold fileName?
  rw [components_join p hName, List.getLast?_concat]

/-! ## The parent -/

theorem filterMap_trimPieces (pieces : List (List Char)) :
    (trimPieces pieces).filterMap component? = pieces.filterMap component? := by
  induction pieces using List.reverseRecOn with
  | nil => rfl
  | append_singleton front last ih =>
    unfold trimPieces at ih ⊢
    rw [List.reverse_append, List.reverse_singleton, List.singleton_append, List.dropWhile_cons]
    split
    · next hSilent =>
      rw [ih, List.filterMap_append, List.filterMap_cons_none (by simpa using hSilent)]
      simp
    · rw [List.reverse_cons, List.reverse_reverse]

theorem trimPieces_sublist (pieces : List (List Char)) : (trimPieces pieces).Sublist pieces := by
  have hDrop := (List.dropWhile_sublist (fun piece => (component? piece).isNone)
    (l := pieces.reverse)).reverse
  rwa [List.reverse_reverse] at hDrop

/-- A piece with something to say is not trimmed. -/
theorem trimPieces_concat {front : List (List Char)} {last : List Char} {c : Component}
    (hLast : component? last = some c) : trimPieces (front ++ [last]) = front ++ [last] := by
  unfold trimPieces
  rw [List.reverse_append, List.reverse_singleton, List.singleton_append, List.dropWhile_cons,
    if_neg (by simp [hLast]), List.reverse_cons, List.reverse_reverse]

theorem componentsOf_join {first : List Char} {rest : List (List Char)}
    (h : ∀ piece ∈ first :: rest, '/' ∉ piece) (hSome : first = [] → rest ≠ []) :
    componentsOf (Pieces.join '/' (first :: rest)) =
      leading first ++ rest.filterMap component? :=
  componentsOf_cons (Pieces.split_join_cons h) hSome

/-- **The parent** of a path with one name more is the path again, up to spelling. -/
theorem parent_join (p : Path) (hName : IsName name) :
    ∃ q, (p.join ⟨name⟩).parent? = some q ∧ q.SameAs p := by
  obtain ⟨front, hSplit, -⟩ := p.split_join hName
  have hJoined := components_join p hName
  unfold components at hJoined
  unfold parent? parentOf?
  cases front with
  | nil =>
    rw [List.nil_append] at hSplit
    rw [componentsOf_cons hSplit fun hNil => absurd hNil hName.ne_nil,
      leading_name hName] at hJoined
    rw [hSplit]
    simp only [if_neg hName.ne_nil]
    refine ⟨⟨""⟩, rfl, ?_⟩
    rw [List.filterMap_nil, List.append_nil] at hJoined
    exact List.append_cancel_right ((List.nil_append _).trans hJoined)
  | cons first more =>
    rw [List.cons_append] at hSplit
    rw [componentsOf_cons hSplit (by simp), List.filterMap_append,
      List.filterMap_cons_some hName.piece, List.filterMap_nil, ← List.append_assoc,
      ← filterMap_trimPieces more] at hJoined
    have hSame := List.append_cancel_right hJoined
    have hNoSlash : ∀ piece ∈ first :: trimPieces more, '/' ∉ piece := fun piece hPiece => by
      apply Pieces.not_mem_of_mem_split (s := (p.join ⟨name⟩).spelling.toList)
      rw [hSplit]
      rcases List.mem_cons.mp hPiece with rfl | hMore
      · exact List.mem_cons_self
      · exact List.mem_cons_of_mem _ (List.mem_append_left _ ((trimPieces_sublist more).mem hMore))
    rw [hSplit]
    dsimp only
    rw [trimPieces_concat hName.piece]
    obtain ⟨next, others, hKept⟩ := List.exists_cons_of_ne_nil
      (show more ++ [name.toList] ≠ [] by simp)
    have hDropped : (next :: others).dropLast = more := by rw [← hKept, List.dropLast_concat]
    rw [hKept]
    dsimp only
    rw [hDropped]
    -- the root directory keeps its slash, other parents lose theirs
    split
    · next hFirst =>
      refine ⟨_, rfl, ?_⟩
      rw [SameAs, components, components, String.toList_ofList, ← hSame, hFirst]
      cases hTrimmed : trimPieces more with
      | nil => rfl
      | cons x xs =>
        rw [hTrimmed, hFirst] at hNoSlash
        exact componentsOf_join hNoSlash (by simp)
    · next hFirst =>
      refine ⟨_, rfl, ?_⟩
      rw [SameAs, components, components, String.toList_ofList, ← hSame]
      exact componentsOf_join hNoSlash fun hNil => absurd hNil hFirst

end Path

/-! ## Steps -/

/-- A name that stays where it is. -/
def Name.isQuiet (name : Name) : Bool :=
  name = Route.here ∨ name = Route.slash

/-- The name that a component is on a route, if it is one. -/
def Component.step? : Component → Option Name
  | .root | .here => none
  | .up => some Route.up
  | .name s => some (.text s)

namespace Path

variable {p q : Path} {name : String}

/-- The names that a path goes through, without those that say nothing. -/
def steps (p : Path) : List Name :=
  p.components.filterMap Component.step?

theorem SameAs.steps (h : p.SameAs q) : p.steps = q.steps :=
  congrArg (List.filterMap Component.step?) h

theorem steps_join (p : Path) (hName : IsName name) :
    (p.join ⟨name⟩).steps = p.steps ++ [.text name] := by
  unfold Path.steps
  rw [components_join p hName, List.filterMap_append]
  rfl

/-- The first piece stands for one component, and for the root directory if it is empty. -/
theorem leading_eq (first : List Char) :
    ∃ c, leading first = [c] ∧ (c = .root ↔ first = []) := by
  unfold leading
  split
  · next hNil => exact ⟨.root, rfl, by simp [hNil]⟩
  · next hSome =>
    split
    · exact ⟨.here, rfl, by simp [hSome]⟩
    · next hHere =>
      cases hPiece : component? first with
      | none =>
        unfold component? at hPiece
        rw [if_neg (not_or.mpr ⟨hSome, hHere⟩)] at hPiece
        split at hPiece <;> cases hPiece
      | some c =>
        exact ⟨c, rfl, fun hRoot => absurd (hRoot ▸ hPiece) component?_ne_root,
          fun hNil => absurd hNil hSome⟩

/-- A path that is not empty has a first piece, alone only if that is not empty. -/
theorem exists_split {s : List Char} (hSome : s ≠ []) : ∃ first rest,
    Pieces.split '/' s = first :: rest ∧ (first = [] → rest ≠ []) ∧
      (first = [] ↔ s.head? = some '/') := by
  obtain ⟨first, rest, hSplit⟩ := List.exists_cons_of_ne_nil (Pieces.split_ne_nil '/' s)
  have hHead := Pieces.split_head? '/' s
  rw [hSplit, List.head?_cons, Option.some.injEq] at hHead
  refine ⟨first, rest, hSplit, ?_, by simpa [hSome] using hHead⟩
  rintro rfl rfl
  rw [← Pieces.join_split '/' s, hSplit] at hSome
  exact hSome rfl

theorem isAbsolute_iff : p.isAbsolute = true ↔ p.components.head? = some .root := by
  unfold isAbsolute components
  by_cases hSome : p.spelling.toList = []
  · rw [hSome]
    simp [componentsOf, Pieces.split]
  · obtain ⟨first, rest, hSplit, hAlone, hHead⟩ := exists_split hSome
    obtain ⟨c, hLeading, hRoot⟩ := leading_eq first
    rw [componentsOf_cons hSplit hAlone, hLeading, List.singleton_append, List.head?_cons,
      Option.some.injEq, hRoot, hHead, beq_iff_eq]

theorem SameAs.isAbsolute (h : p.SameAs q) : p.isAbsolute = q.isAbsolute := by
  rw [Bool.eq_iff_iff, isAbsolute_iff, isAbsolute_iff, h]

/-! ## Routes -/

/-- The name of a piece, if it says anything. -/
theorem step?_piece (piece : List Char) : (component? piece).bind Component.step? =
    if (Disk.pieceName piece).isQuiet then none else some (Disk.pieceName piece) := by
  unfold component?
  split
  · next hSilent => rcases hSilent with rfl | rfl <;> rfl
  · next hSaid =>
    obtain ⟨hEmpty, hHere⟩ := not_or.mp hSaid
    have hLoud : (Disk.pieceName piece).isQuiet = false :=
      decide_eq_false (not_or.mpr ⟨fun hEq => hHere (Disk.pieceName_eq_iff.mp hEq),
        fun hEq => hEmpty (Disk.pieceName_eq_iff.mp hEq)⟩)
    rw [hLoud]
    split
    · next hUp =>
      rw [hUp]
      rfl
    · rfl

/-- The names of pieces, without those that say nothing. -/
def loud (pieces : List (List Char)) : List Name :=
  (pieces.map Disk.pieceName).filter fun name => !name.isQuiet

theorem loud_eq (pieces : List (List Char)) :
    (pieces.filterMap component?).filterMap Component.step? = loud pieces := by
  rw [List.filterMap_filterMap, loud, ← List.filterMap_eq_filter, List.filterMap_map]
  refine List.filterMap_congr fun piece _ => ?_
  rw [step?_piece]
  cases hQuiet : (Disk.pieceName piece).isQuiet <;> simp [hQuiet, Option.guard]

theorem leading_loud (first : List Char) :
    (leading first).filterMap Component.step? = loud [first] := by
  unfold leading
  split
  · next hNil => rw [hNil]; rfl
  · split
    · next hHere => rw [hHere]; rfl
    · rw [← loud_eq]
      cases hPiece : component? first with
      | none => rw [List.filterMap_cons_none hPiece]; rfl
      | some c => rw [List.filterMap_cons_some hPiece]; rfl

theorem steps_eq (p : Path) : p.steps = loud (Pieces.split '/' p.spelling.toList) := by
  unfold steps components
  by_cases hSome : p.spelling.toList = []
  · rw [hSome]
    rfl
  · obtain ⟨first, rest, hSplit, hAlone, -⟩ := exists_split hSome
    rw [componentsOf_cons hSplit hAlone, hSplit, List.filterMap_append, loud_eq, leading_loud,
      loud, loud, loud, ← List.filter_append, ← List.map_append, List.singleton_append]

theorem loud_append (front back : List (List Char)) :
    loud (front ++ back) = loud front ++ loud back := by
  rw [loud, List.map_append, List.filter_append]
  rfl

theorem filter_slash (names : List Name) :
    ((names.filter (· ≠ Route.slash)).filter fun name => !name.isQuiet) =
      names.filter fun name => !name.isQuiet := by
  rw [List.filter_filter]
  refine List.filter_congr fun name _ => ?_
  by_cases hSlash : name = Route.slash <;> simp [Name.isQuiet, hSlash]

/-- The names of the route that pieces describe. -/
theorem names_ofPieces (front : List (List Char)) (last : List Char) :
    (Route.ofPieces ((front ++ [last]).map Disk.pieceName)).names =
      (front.map Disk.pieceName).filter (· ≠ Route.slash) ++ [Disk.pieceName last] := by
  rw [List.map_append, List.map_singleton, Route.ofPieces, List.dropLast_concat,
    List.getLastD_concat]

/-- **The route** of a path starts where the path does, and goes through its steps. -/
theorem route_native (p : Path) : (Route.ofByteString p.native).absolute = p.isAbsolute ∧
    ((Route.ofByteString p.native).names.filter fun name => !name.isQuiet) = p.steps := by
  show (Route.ofPieces ((Pieces.split '/' p.spelling.toList).map Disk.pieceName)).absolute = _ ∧
    (Route.ofPieces ((Pieces.split '/' p.spelling.toList).map Disk.pieceName)).names.filter _ = _
  constructor
  · unfold isAbsolute
    by_cases hSome : p.spelling.toList = []
    · rw [hSome]
      rfl
    · obtain ⟨first, rest, hSplit, hAlone, hHead⟩ := exists_split hSome
      rw [hSplit, Bool.eq_iff_iff, beq_iff_eq, ← hHead, Route.ofPieces]
      by_cases hFirst : first = []
      · simp [hFirst, hAlone hFirst, Disk.pieceName, Route.slash]
      · have hName : Disk.pieceName first ≠ Route.slash :=
          fun hEq => hFirst (Disk.pieceName_eq_iff.mp hEq)
        simp [hFirst, hName]
  · obtain ⟨front, last, hSplit⟩ : ∃ front last,
        Pieces.split '/' p.spelling.toList = front ++ [last] := by
      rcases List.eq_nil_or_concat (Pieces.split '/' p.spelling.toList) with hNil | ⟨front, last, h⟩
      · exact absurd hNil (Pieces.split_ne_nil _ _)
      · exact ⟨front, last, by rw [h, List.concat_eq_append]⟩
    rw [steps_eq, hSplit, names_ofPieces, List.filter_append, filter_slash, loud_append]
    rfl

/-- The route of a path with one name more ends in it. -/
theorem route_join (p : Path) (hName : IsName name) : ∃ names,
    Route.ofByteString (p.join ⟨name⟩).native = ⟨p.isAbsolute, names ++ [.text name]⟩ ∧
      (names.filter fun name => !name.isQuiet) = p.steps := by
  obtain ⟨front, hSplit, -⟩ := p.split_join hName
  obtain ⟨hAbsolute, hSteps⟩ := (p.join ⟨name⟩).route_native
  obtain ⟨hSame, hSaid, -⟩ := Disk.component?_eq_name hName.piece
  have hNames : (Route.ofByteString (p.join ⟨name⟩).native).names =
      (front.map Disk.pieceName).filter (· ≠ Route.slash) ++ [.text name] := by
    show (Route.ofPieces ((Pieces.split '/' (p.join ⟨name⟩).spelling.toList).map
      Disk.pieceName)).names = _
    rw [hSplit, names_ofPieces, hSame]
  have hStart : (p.join ⟨name⟩).isAbsolute = p.isAbsolute := by
    rw [Bool.eq_iff_iff, isAbsolute_iff, isAbsolute_iff, components_join p hName]
    cases p.components <;> simp
  refine ⟨(front.map Disk.pieceName).filter (· ≠ Route.slash), ?_, ?_⟩
  · generalize Route.ofByteString (p.join ⟨name⟩).native = route at hAbsolute hNames
    rw [← hStart, ← hAbsolute, ← hNames]
  · -- the last name is a step, and the others are the steps before it
    rw [hNames, steps_join p hName, List.filter_append, ← hSame,
      List.filter_cons_of_pos (by simpa [Name.isQuiet] using hSaid), List.filter_nil] at hSteps
    exact List.append_cancel_right hSteps

end Path

end TreeWatch
