import TreeWatch.Walk
import TreeWatch.Proofs.Paths

/-!
# Components of absolute paths

An absolute path without `..` is the list of the names it goes through (`Path.Leads`), whatever its
spelling. A name put below such a path is one name more, so the paths that a walk or a notification
puts together are known by their names alone; a name that is not text makes the whole path something
that is not text.

Main results:
  * `Path.Leads.join`, `Path.Leads.under`: one name more, and several
  * `ByteString.foldl_child_text`, `ByteString.text_of_foldl_child`: a path that was put together is
    text if and only if its names are
  * `Path.startsWith_iff_key`: one path lies below another if its key goes on where the other ends
-/

namespace TreeWatch

/-! ## Pieces -/

namespace Pieces

variable {α : Type} [DecidableEq α]

theorem split_of_not_mem {separator : α} {s : List α} (h : separator ∉ s) :
    split separator s = [s] := by
  induction s with
  | nil => rfl
  | cons c rest ih =>
    rw [List.mem_cons, not_or] at h
    obtain ⟨hHead, hRest⟩ := h
    rw [split, if_neg (Ne.symm hHead), ih hRest]

/-- A separator ends the pieces before it. -/
theorem split_append (separator : α) (s t : List α) :
    split separator (s ++ separator :: t) = split separator s ++ split separator t := by
  induction s with
  | nil => simp [split]
  | cons c rest ih =>
    rw [List.cons_append, split, split]
    by_cases hHere : c = separator
    · rw [if_pos hHere, if_pos hHere, ih, List.cons_append]
    · rw [if_neg hHere, if_neg hHere, ih]
      cases hRest : split separator rest with
      | nil => exact absurd hRest (split_ne_nil separator rest)
      | cons piece pieces => rfl

end Pieces

/-! ## Names -/

/-- A text that can be the name of an entry. -/
structure IsName (name : String) : Prop where
  noSlash : '/' ∉ name.toList
  piece : Path.component? name.toList = some (.name name)

theorem IsName.ne_nil {name : String} (h : IsName name) : name.toList ≠ [] := by
  intro hNil
  have hPiece := h.piece
  rw [hNil] at hPiece
  cases hPiece

namespace Path

/-- An absolute path that goes through names only. -/
def Leads (p : Path) (names : List String) : Prop :=
  p.components = .root :: names.map .name

theorem Leads.inj {p : Path} {names others : List String} (h : p.Leads names)
    (h' : p.Leads others) : names = others := by
  have hSame : names.map Component.name = others.map Component.name :=
    (List.cons.inj (h.symm.trans h')).2
  exact (List.map_inj_right fun _ _ hEq => Component.name.inj hEq).mp hSame

theorem Leads.sameAs_iff {p q : Path} {names others : List String} (hp : p.Leads names)
    (hq : q.Leads others) : p.SameAs q ↔ names = others := by
  constructor
  · intro hSame
    exact Leads.inj (Eq.trans (Eq.symm hSame) hp) hq
  · intro hEq
    exact hp.trans (hEq ▸ hq.symm)

theorem Leads.of_sameAs {p q : Path} {names : List String} (hp : p.Leads names)
    (h : p.SameAs q) : q.Leads names :=
  Eq.trans (Eq.symm h) hp

theorem Leads.startsWith_iff {p q : Path} {names others : List String} (hp : p.Leads names)
    (hq : q.Leads others) : p.startsWith q = true ↔ others <+: names := by
  rw [Path.startsWith_iff, hp, hq, List.cons_prefix_cons]
  refine ⟨fun h => ?_, fun h => ⟨rfl, h.map _⟩⟩
  exact (List.prefix_map_iff_of_injective fun _ _ hEq => Component.name.inj hEq).mp h.2

theorem componentsOf_slash (s : List Char) :
    componentsOf ('/' :: s) = .root :: (Pieces.split '/' s).filterMap component? := by
  rw [componentsOf, Pieces.split, if_pos rfl]
  simp [Pieces.split_ne_nil]

theorem component?_ne_root {piece : List Char} : component? piece ≠ some .root := by
  unfold component?
  split
  · simp
  · split <;> simp

/-- What leads anywhere is spelled with a slash at its start. -/
theorem Leads.absolute {p : Path} {names : List String} (h : p.Leads names) :
    ∃ rest, p.spelling.toList = '/' :: rest := by
  unfold Leads components componentsOf at h
  split at h
  · cases h
  · next first rest hSplit =>
    split at h
    · next hFirst =>
      -- an empty first piece, and more to follow
      rw [hFirst] at hSplit
      rw [← Pieces.join_split '/' p.spelling.toList, hSplit]
      cases rest with
      | nil => simp at h
      | cons next more => exact ⟨_, rfl⟩
    · split at h
      · cases h
      -- a relative spelling has no root among its components
      · have hRoot : Component.root ∈ (first :: rest).filterMap component? := by simp [h]
        obtain ⟨piece, -, hPiece⟩ := List.mem_filterMap.mp hRoot
        exact absurd hPiece component?_ne_root

theorem components_of_absolute {p : Path} {rest : List Char}
    (h : p.spelling.toList = '/' :: rest) :
    p.components = .root :: (Pieces.split '/' rest).filterMap component? := by
  unfold components
  rw [h, componentsOf_slash]

/-- A slash more at the start says nothing. -/
theorem Leads.slash {p : Path} {names : List String} (h : p.Leads names) :
    (⟨"/" ++ p.spelling⟩ : Path).Leads names := by
  obtain ⟨rest, hRest⟩ := h.absolute
  have hMore : ("/" ++ p.spelling).toList = '/' :: '/' :: rest := by
    rw [String.toList_append, hRest]
    rfl
  unfold Leads at h ⊢
  rw [components_of_absolute hMore, Pieces.split, if_pos rfl, ← h, components_of_absolute hRest]
  rfl

/-- A slash at the end says nothing. -/
theorem filterMap_split_snoc_slash (s : List Char) :
    (Pieces.split '/' (s ++ ['/'])).filterMap component? =
      (Pieces.split '/' s).filterMap component? := by
  rw [Pieces.split_append, List.filterMap_append]
  simp [Pieces.split, component?]

/-- The pieces of a path with one name more: that name comes last. -/
theorem Leads.split_join {p : Path} {names : List String} {name : String} (h : p.Leads names)
    (hName : IsName name) : ∃ front,
      Pieces.split '/' (p.join ⟨name⟩).spelling.toList = [] :: (front ++ [name.toList]) ∧
        front.filterMap component? = names.map .name := by
  obtain ⟨rest, hRest⟩ := h.absolute
  have hRelative : (⟨name⟩ : Path).isAbsolute = false := by
    unfold isAbsolute
    cases hChars : name.toList with
    | nil => rfl
    | cons c cs =>
      have hNoSlash := hName.noSlash
      rw [hChars, List.mem_cons, not_or] at hNoSlash
      simpa using Ne.symm hNoSlash.1
  have hPiece := Pieces.split_of_not_mem hName.noSlash
  have hNames : (Pieces.split '/' rest).filterMap component? = names.map .name :=
    (List.cons.inj ((components_of_absolute hRest).symm.trans h)).2
  have hStart : ∀ s, Pieces.split '/' ('/' :: s) = [] :: Pieces.split '/' s := fun s => by
    rw [Pieces.split, if_pos rfl]
  -- with a slash at the end already, and without
  unfold Path.join
  rw [if_neg (by simp [hRelative])]
  split
  · next hEnd =>
    have hSlash : p.spelling.toList.getLast? = some '/' := hEnd.resolve_left (by simp [hRest])
    have hSpelling : (p.spelling ++ name).toList = '/' :: (rest ++ name.toList) := by
      simp [hRest]
    rw [hSpelling, hStart]
    rcases List.eq_nil_or_concat rest with rfl | ⟨body, last, rfl⟩
    · rw [List.nil_append, hPiece]
      exact ⟨[], rfl, by simpa [Pieces.split, component?] using hNames⟩
    · rw [hRest, List.concat_eq_append, ← List.cons_append, List.getLast?_concat] at hSlash
      rw [Option.some.inj hSlash, List.concat_eq_append] at hNames ⊢
      rw [filterMap_split_snoc_slash] at hNames
      rw [List.append_assoc, List.singleton_append, Pieces.split_append, hPiece]
      exact ⟨_, rfl, hNames⟩
  · have hSpelling : (p.spelling ++ "/" ++ name).toList = '/' :: (rest ++ '/' :: name.toList) := by
      simp [hRest]
    rw [hSpelling, hStart, Pieces.split_append, hPiece]
    exact ⟨_, rfl, hNames⟩

/-- **One name more.** -/
theorem Leads.join {p : Path} {names : List String} {name : String} (h : p.Leads names)
    (hName : IsName name) : (p.join ⟨name⟩).Leads (names ++ [name]) := by
  obtain ⟨front, hSplit, hFront⟩ := h.split_join hName
  unfold Leads components componentsOf
  rw [hSplit]
  simp [List.filterMap_append, hFront, hName.piece]

/-- The path with several names below it. -/
def under (p : Path) (names : List String) : Path :=
  names.foldl (fun p name => p.join ⟨name⟩) p

theorem under_append (p : Path) (front back : List String) :
    p.under (front ++ back) = (p.under front).under back :=
  List.foldl_append

/-- **Several names more.** -/
theorem Leads.under {p : Path} {names : List String} (h : p.Leads names) :
    ∀ {more : List String}, (∀ name ∈ more, IsName name) → (p.under more).Leads (names ++ more)
  | [], _ => by rwa [List.append_nil]
  | name :: more, hNames => by
    have hNext := h.join (hNames name List.mem_cons_self)
    have hRest := hNext.under fun other hOther => hNames other (List.mem_cons_of_mem _ hOther)
    rwa [List.append_assoc] at hRest

end Path

/-! ## Names that are not text -/

namespace Utf8

/-- A character that has begun owes bytes that are not ASCII. -/
theorem start_low {b : UInt8} {p : Begun} (h : start b = .inr p) : 0x80 ≤ p.low := by
  unfold start at h
  dsimp only at h
  repeat' split at h
  all_goals cases h
  all_goals
    dsimp only
    decide

theorem extend_low {p q : Begun} {b : UInt8} (h : p.extend b = .inr q) : 0x80 ≤ q.low := by
  unfold Begun.extend at h
  dsimp only at h
  split at h
  all_goals cases h
  all_goals
    dsimp only
    decide

theorem start_slash : start 0x2F = .inl (.char '/') := by
  rfl

/-- A slash stands for itself, whatever comes before it. -/
theorem chunksFrom_slash (t : List UInt8) : ∀ (s : List UInt8) (begun : Option Begun),
    (∀ p, begun = some p → 0x80 ≤ p.low) →
    chunksFrom begun (s ++ 0x2F :: t) = chunksFrom begun s ++ .char '/' :: chunksFrom none t
  | [], none, _ => by
    simp only [List.nil_append, chunksFrom, start_slash]
  | [], some p, hLow => by
    -- the character before the slash is cut short by it
    have hOut : ¬ (p.low ≤ 0x2F ∧ 0x2F ≤ p.high) := by
      intro hIn
      exact absurd (UInt8.le_trans (hLow p rfl) hIn.1) (by decide)
    simp only [List.nil_append, chunksFrom, if_neg hOut, start_slash, List.singleton_append]
  | b :: rest, none, _ => by
    rw [List.cons_append, chunksFrom, chunksFrom]
    cases hStart : start b with
    | inl chunk => exact congrArg (chunk :: ·) (chunksFrom_slash t rest none (by simp))
    | inr p =>
      refine chunksFrom_slash t rest (some p) fun q hEq => ?_
      cases hEq
      exact start_low hStart
  | b :: rest, some p, hLow => by
    rw [List.cons_append, chunksFrom, chunksFrom]
    by_cases hIn : p.low ≤ b ∧ b ≤ p.high
    · rw [if_pos hIn, if_pos hIn]
      cases hExtend : p.extend b with
      | inl chunk => exact congrArg (chunk :: ·) (chunksFrom_slash t rest none (by simp))
      | inr q =>
        refine chunksFrom_slash t rest (some q) fun r hEq => ?_
        cases hEq
        exact extend_low hExtend
    · rw [if_neg hIn, if_neg hIn]
      cases hStart : start b with
      | inl chunk =>
        exact congrArg (p.cut :: chunk :: ·) (chunksFrom_slash t rest none (by simp))
      | inr q =>
        refine congrArg (p.cut :: ·) (chunksFrom_slash t rest (some q) fun r hEq => ?_)
        cases hEq
        exact start_low hStart

/-- A text with a slash in it is a text on both sides of the slash. -/
theorem decode?_slash (s t : List UInt8) :
    decode? (s ++ 0x2F :: t) = none ↔ decode? s = none ∨ decode? t = none := by
  unfold decode? chunks
  rw [chunksFrom_slash t s none (by simp), List.mapM_append, Option.map_eq_none_iff,
    Option.map_eq_none_iff, Option.map_eq_none_iff]
  cases (chunksFrom none s).mapM Chunk.char? with
  | none => simp
  | some left =>
    cases hRight : (chunksFrom none t).mapM Chunk.char? with
    | none => simp [hRight]
    | some right => simp [hRight, Chunk.char?]

end Utf8

namespace ByteString

theorem text?_ofBytes (bytes : List UInt8) : (ofBytes bytes).text? = Utf8.decode? bytes := by
  unfold ofBytes
  split
  · next s hDecode => exact hDecode.symm
  · next hDecode => exact hDecode.symm

theorem decode?_of_raw {b : ByteString} (h : b.text? = none) : Utf8.decode? b.bytes = none := by
  cases b with
  | text s => cases h
  | raw bytes notText => exact notText

theorem child_eq_ofBytes {path name : ByteString}
    (h : path.text? = none ∨ name.text? = none) :
    path.child name = ofBytes (path.bytes ++
      (if path.bytes.getLast? = some 0x2F then [] else [0x2F]) ++ name.bytes) := by
  cases path with
  | raw bytes notText => rfl
  | text p =>
    cases name with
    | raw bytes notText => rfl
    | text n => simp [text?] at h

/-- A path is text only as long as all of its names are. -/
theorem child_raw {path name : ByteString} (h : path.text? = none ∨ name.text? = none) :
    (path.child name).text? = none := by
  rw [child_eq_ofBytes h, text?_ofBytes]
  have hDecode : Utf8.decode? path.bytes = none ∨ Utf8.decode? name.bytes = none :=
    h.imp decode?_of_raw decode?_of_raw
  -- the slash between path and name parts the bytes, and either part is no text
  split
  · next hLast =>
    obtain ⟨front, hFront⟩ := List.getLast?_eq_some_iff.mp hLast
    rw [hFront, Utf8.decode?_slash] at hDecode
    rw [hFront, List.append_nil, List.append_assoc, List.singleton_append, Utf8.decode?_slash]
    exact hDecode.imp_left fun hSides => hSides.resolve_right (by decide)
  · rw [List.append_assoc, List.singleton_append]
    exact (Utf8.decode?_slash _ _).mpr hDecode

theorem foldl_child_raw {path : ByteString} (h : path.text? = none) :
    ∀ names : List Name, (names.foldl child path).text? = none
  | [] => h
  | _ :: names => foldl_child_raw (child_raw (Or.inl h)) names

/-- Names that are text make a path that is text. -/
theorem foldl_child_text (p : Path) :
    ∀ names : List String, (names.map text).foldl child p.native = (p.under names).native
  | [] => rfl
  | name :: names => foldl_child_text (p.join ⟨name⟩) names

/-- A path that is text is made of names that are text. -/
theorem text_of_foldl_child {p q : Path} :
    ∀ {names : List Name}, names.foldl child p.native = q.native →
      ∃ texts : List String, names = texts.map text ∧ q = p.under texts
  | [], h => ⟨[], rfl, by
    cases p
    cases q
    exact (congrArg Path.mk (text.inj h)).symm⟩
  | .text name :: names, h => by
    obtain ⟨texts, rfl, hEq⟩ := text_of_foldl_child (p := p.join ⟨name⟩) h
    exact ⟨name :: texts, rfl, hEq⟩
  | .raw bytes notText :: names, h => by
    -- a name that is no text spoils all that follows
    have hFirst : (p.native.child (.raw bytes notText)).text? = none := child_raw (Or.inr rfl)
    have hRaw := foldl_child_raw hFirst names
    rw [List.foldl_cons] at h
    rw [h] at hRaw
    cases hRaw

end ByteString

/-! ## Keys -/

theorem Component.key_injective {c d : Component} (h : c.key = d.key) : c = d := by
  cases c <;> cases d <;> simp only [key, List.cons.injEq, reduceCtorEq, Nat.reduceEqDiff,
    true_and, false_and] at h ⊢
  rw [List.map_inj_right fun _ _ hEq => Char.toNat_inj.mp hEq, String.toList_inj] at h
  exact congrArg Component.name h

namespace Path

theorem startsWith_iff_key {p q : Path} : p.startsWith q = true ↔ q.key <+: p.key := by
  rw [startsWith_iff]
  exact (List.prefix_map_iff_of_injective fun _ _ h => Component.key_injective h).symm

theorem sameAs_iff_key {p q : Path} : p.SameAs q ↔ p.key = q.key :=
  (List.map_inj_right fun _ _ h => Component.key_injective h).symm

end Path

end TreeWatch
