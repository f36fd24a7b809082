import TreeWatch.Config.Reader
import TreeWatch.Config.Writer
import TreeWatch.Proofs.Texts

/-!
# What JSON readers make of a text

A reader takes a value from the start of a text and leaves the rest. Which texts it takes a value
from is said here for the parts of JSON one by one, whatever stands behind them and however blanks
are set: strings, whole numbers, lists (`ItemsText`) and objects (`MembersText`).

Main results:
  * `readString_written`: a string that was written is read as it was
  * `spells_natural`: a number in digits is read as itself
  * `ItemsText.read`, `MembersText.read`: a list is read item by item, an object member by member
-/

namespace TreeWatch.Json

variable {α : Type}

/-! ## Blanks -/

/-- A text of blanks. -/
def Blanks (s : List Char) : Prop :=
  ∀ c ∈ s, isBlank c = true

theorem blanks_nil : Blanks [] := by
  simp [Blanks]

theorem skipBlanks_append {blanks s : List Char} (h : Blanks blanks) :
    skipBlanks (blanks ++ s) = skipBlanks s :=
  List.dropWhile_append_of_pos h

theorem skipBlanks_eq_nil {blanks : List Char} (h : Blanks blanks) : skipBlanks blanks = [] := by
  rw [← List.append_nil blanks, skipBlanks_append h]
  rfl

theorem skipBlanks_cons {c : Char} {rest : List Char} (h : isBlank c = false) :
    skipBlanks (c :: rest) = c :: rest :=
  List.dropWhile_cons_of_neg (by simp [h])

/-! ## Where a value ends and starts -/

/-- What may stand behind a value: nothing, a blank, a comma or a closing bracket. -/
def Ends (rest : List Char) : Prop :=
  ∀ c, rest.head? = some c → isBlank c = true ∨ c = ',' ∨ c = ']' ∨ c = '\x7d'

theorem ends_nil : Ends [] := by
  simp [Ends]

theorem Ends.cons {c : Char} {rest : List Char}
    (h : isBlank c = true ∨ c = ',' ∨ c = ']' ∨ c = '\x7d') : Ends (c :: rest) := by
  intro d hHead
  cases hHead
  exact h

theorem Ends.append {blanks rest : List Char} (hBlanks : Blanks blanks) (h : Ends rest) :
    Ends (blanks ++ rest) := by
  cases blanks with
  | nil => exact h
  | cons c more => exact .cons (Or.inl (hBlanks c List.mem_cons_self))

/-- What may stand behind a value goes on with no digit, and with nothing else that a number could
go on with. -/
theorem Ends.head_ne {rest : List Char} {c : Char} (h : Ends rest) (hHead : rest.head? = some c) :
    c.isDigit = false ∧ c ≠ '.' ∧ c ≠ 'e' ∧ c ≠ 'E' := by
  rcases h c hHead with hBlank | rfl | rfl | rfl
  · simp only [isBlank, Bool.or_eq_true, beq_iff_eq] at hBlank
    rcases hBlank with ((rfl | rfl) | rfl) | rfl <;> decide
  · decide
  · decide
  · decide

/-- A reader takes a value from a text, whatever stands behind it. -/
def Takes (read : Reader α) (text : List Char) (x : α) : Prop :=
  ∀ rest, Ends rest → read (text ++ rest) = .ok (x, rest)

/-- A text of a value: it starts with neither a blank nor a closing bracket, and the reader takes
the value from it with any blanks in front. -/
structure Spells (read : Reader α) (text : List Char) (x : α) : Prop where
  starts : ∃ c more, text = c :: more ∧ isBlank c = false ∧ c ≠ ']'
  takes : ∀ blanks, Blanks blanks → Takes read (blanks ++ text) x

/-- A reader that skips blanks takes a value with blanks in front as it does without. -/
theorem takes_behind_blanks {read : Reader α} {text : List Char} {x : α}
    (hSkips : ∀ s t, skipBlanks s = skipBlanks t → read s = read t) (h : Takes read text x)
    {blanks : List Char} (hBlanks : Blanks blanks) : Takes read (blanks ++ text) x := by
  intro rest hRest
  rw [List.append_assoc, hSkips _ _ (skipBlanks_append hBlanks), h rest hRest]

/-- A text is one of the value that a reader which skips blanks takes from it. -/
theorem spells_of_takes {read : Reader α} {c : Char} {more : List Char} {x : α}
    (hBlank : isBlank c = false) (hOpen : c ≠ ']')
    (hSkips : ∀ s t, skipBlanks s = skipBlanks t → read s = read t)
    (h : Takes read (c :: more) x) : Spells read (c :: more) x :=
  ⟨⟨c, more, rfl, hBlank, hOpen⟩, fun _ hBlanks => takes_behind_blanks hSkips h hBlanks⟩

/-- A value made of the one that is read is spelled the same. -/
theorem Spells.map {β : Type} {read : Reader α} {made : Reader β} {text : List Char} {x : α}
    (h : Spells read text x) (f : α → β)
    (hMade : ∀ s, made s = (read s).map fun found => (f found.1, found.2)) :
    Spells made text (f x) := by
  refine ⟨h.starts, fun blanks hBlanks rest hRest => ?_⟩
  rw [hMade, h.takes blanks hBlanks rest hRest]
  rfl

/-! ## Strings -/

theorem hexDigit?_digitChar {n : Nat} (h : n < 16) : hexDigit? (Nat.digitChar n) = some n := by
  have hAll : ∀ m : Fin 16, hexDigit? (Nat.digitChar m) = some m.val := by decide
  exact hAll ⟨n, h⟩

/-- The escape of a control character ends in the two digits of its number. -/
theorem controlEscape_eq {c : Char} (h : c.toNat < 0x20) : controlEscape c =
    ['\\', 'u', '0', '0', Nat.digitChar (c.toNat / 16), Nat.digitChar (c.toNat % 16)] := by
  unfold controlEscape
  by_cases hSmall : c.toNat < 16
  · rw [Nat.toDigits_of_lt_base hSmall, Nat.div_eq_of_lt hSmall, Nat.mod_eq_of_lt hSmall]
    rfl
  · have hRest : c.toNat / 16 < 16 := by omega
    rw [Nat.toDigits_of_base_le (by omega) (by omega), Nat.toDigits_of_lt_base hRest]
    rfl

theorem readString_close (rest : List Char) : readString ('\x22' :: rest) = .ok ([], rest) := by
  rw [readString.eq_def]
  rfl

theorem readString_plain {c : Char} (rest : List Char) (hQuote : c ≠ '\x22')
    (hBackslash : c ≠ '\\') (hControl : ¬ c.toNat < 0x20) :
    readString (c :: rest) = consChar c (readString rest) := by
  rw [readString.eq_def]
  dsimp only
  rw [if_neg hQuote, if_neg hBackslash, if_neg hControl]

theorem readString_letter {letter c : Char} (rest : List Char)
    (h : letterEscape? letter = some c) :
    readString ('\\' :: letter :: rest) = consChar c (readString rest) := by
  have hLetter : letter ≠ 'u' := by
    rintro rfl
    cases h
  rw [readString.eq_def]
  dsimp only
  rw [if_neg (by decide), if_pos rfl, if_neg hLetter, h]

theorem readString_unit {a b c d : Char} {unit : Nat} (rest : List Char)
    (h : hex4? a b c d = some unit) (hTrailing : isTrailing unit = false)
    (hLeading : isLeading unit = false) :
    readString ('\\' :: 'u' :: a :: b :: c :: d :: rest) =
      consChar (Char.ofNat unit) (readString rest) := by
  rw [readString.eq_def]
  dsimp only
  rw [if_neg (by decide), if_pos rfl, if_pos rfl, h]
  dsimp only
  rw [if_neg (by simp [hTrailing]), if_neg (by simp [hLeading])]

/-- A character that was written is read as itself. -/
theorem readString_writeChar (c : Char) (rest : List Char) :
    readString (writeChar c ++ rest) = consChar c (readString rest) := by
  unfold writeChar
  split
  · exact readString_letter rest rfl
  · exact readString_letter rest rfl
  · exact readString_letter rest rfl
  · exact readString_letter rest rfl
  · exact readString_letter rest rfl
  · exact readString_letter rest rfl
  · exact readString_letter rest rfl
  · next hQuote hBackslash _ _ _ _ _ =>
    split
    · next hControl =>
      -- a control character is far from the numbers that come in pairs
      have hUnit : hex4? '0' '0' (Nat.digitChar (c.toNat / 16)) (Nat.digitChar (c.toNat % 16)) =
          some c.toNat := by
        have hZero : hexDigit? '0' = some 0 := by decide
        simp only [hex4?, hZero, hexDigit?_digitChar (show c.toNat / 16 < 16 by omega),
          hexDigit?_digitChar (Nat.mod_lt c.toNat (by omega)), bind, Option.bind, pure]
        exact congrArg some (by omega)
      rw [controlEscape_eq hControl]
      refine (readString_unit rest hUnit ?_ ?_).trans ?_
      · simp [isTrailing]
        omega
      · simp [isLeading]
        omega
      · rw [Char.ofNat_toNat]
    · next hControl => exact readString_plain rest hQuote hBackslash hControl

/-- **A string that was written** is read as it was. -/
theorem readString_written (s rest : List Char) :
    readString (s.flatMap writeChar ++ '\x22' :: rest) = .ok (s, rest) := by
  induction s with
  | nil => exact readString_close rest
  | cons c s ih =>
    rw [List.flatMap_cons, List.append_assoc, readString_writeChar, ih]
    rfl

/-! ## Numbers -/

/-- Digits that keep a value within the limit are read as a whole. -/
theorem accumulate_digits {limit : Nat} {rest : List Char}
    (hRest : ∀ c, rest.head? = some c → c.isDigit = false) (digits : List Char) :
    ∀ {value : Nat}, (∀ c ∈ digits, c.isDigit = true) →
      Nat.ofDigitChars 10 digits value ≤ limit →
      accumulate limit value (digits ++ rest) = (Nat.ofDigitChars 10 digits value, rest) := by
  induction digits with
  | nil =>
    intro value _ _
    cases rest with
    | nil => rfl
    | cons c more =>
      have hDigit : c.isDigit = false := hRest c rfl
      rw [List.nil_append, accumulate, if_neg (by simp [hDigit])]
      rfl
  | cons c digits ih =>
    intro value hDigits hRange
    have hNext : value * 10 + digitValue c = 10 * value + (c.toNat - '0'.toNat) := by
      rw [digitValue, Nat.mul_comm]
    rw [Nat.ofDigitChars_cons] at hRange ⊢
    -- the value grows with every digit, so it is in range all the way
    have hHere := Numeral.le_ofDigitChars digits (10 * value + (c.toNat - '0'.toNat))
    rw [List.cons_append, accumulate, if_pos (hDigits c List.mem_cons_self)]
    dsimp only
    rw [hNext, if_pos (Nat.le_trans hHere hRange)]
    exact ih (fun d hd => hDigits d (List.mem_cons_of_mem _ hd)) hRange

/-- The digits of a number other than zero do not start with a zero. -/
theorem toDigits_head (n : Nat) (h : 0 < n) :
    ∃ c more, Nat.toDigits 10 n = c :: more ∧ c ≠ '0' := by
  induction n using Nat.strongRecOn with
  | ind n ih =>
    by_cases hSmall : n < 10
    · have hAll : ∀ m : Fin 10, 0 < m.val → Nat.digitChar m ≠ '0' := by decide
      exact ⟨_, [], Nat.toDigits_of_lt_base hSmall, hAll ⟨n, hSmall⟩ h⟩
    · obtain ⟨c, more, hDigits, hZero⟩ := ih (n / 10) (by omega) (by omega)
      rw [Nat.toDigits_of_base_le (by omega) (by omega), hDigits]
      exact ⟨c, _, rfl, hZero⟩

theorem wholeOr_natural {n : Nat} {rest : List Char} (h : Ends rest) :
    wholeOr false n rest = .ok (.natural n, rest) := by
  unfold wholeOr
  split
  · exact absurd rfl (h.head_ne rfl).2.1
  · exact absurd rfl (h.head_ne rfl).2.2.1
  · exact absurd rfl (h.head_ne rfl).2.2.2
  · rfl

theorem readNumber_digits {n : Nat} {rest : List Char} (hRange : n ≤ maxSignificand)
    (h : Ends rest) : readNumber false (Nat.toDigits 10 n ++ rest) = .ok (.natural n, rest) := by
  have hRest : ∀ c, rest.head? = some c → c.isDigit = false := fun c hHead => (h.head_ne hHead).1
  have hNone : ¬ rest.head?.any Char.isDigit = true := by
    cases rest with
    | nil => simp
    | cons c more => simp [hRest c rfl]
  rcases Nat.eq_zero_or_pos n with rfl | hPos
  · show (if rest.head?.any Char.isDigit then _ else wholeOr false 0 rest) = _
    rw [if_neg hNone, wholeOr_natural h]
  · obtain ⟨c, more, hDigits, hZero⟩ := toDigits_head n hPos
    have hAll : ∀ d ∈ c :: more, d.isDigit = true := fun d hd =>
      Nat.isDigit_of_mem_toDigits (by omega) (by omega) (hDigits ▸ hd)
    have hValue : Nat.ofDigitChars 10 more (digitValue c) = n := by
      have hWhole : Nat.ofDigitChars 10 (Nat.toDigits 10 n) 0 = n :=
        Nat.ofDigitChars_toDigits (by omega) (by omega)
      rwa [hDigits, Nat.ofDigitChars_cons, Nat.mul_zero, Nat.zero_add] at hWhole
    rw [hDigits, List.cons_append]
    unfold readNumber
    split
    · next hEq => cases hEq
    · next hEq => exact absurd (List.cons.inj hEq).1 hZero
    · next hEq =>
      cases hEq
      rw [if_pos (hAll c List.mem_cons_self), accumulate_digits hRest more
        (fun d hd => hAll d (List.mem_cons_of_mem _ hd)) (hValue ▸ hRange)]
      dsimp only
      rw [if_neg hNone, hValue, wholeOr_natural h]

theorem isBlank_of_isDigit {c : Char} (h : c.isDigit = true) : isBlank c = false := by
  cases hBlank : isBlank c with
  | false => rfl
  | true =>
    simp only [isBlank, Bool.or_eq_true, beq_iff_eq] at hBlank
    rcases hBlank with ((rfl | rfl) | rfl) | rfl <;> cases h

theorem readNatural_digits {limit n : Nat} {rest : List Char} (wanted : String) (hLimit : n ≤ limit)
    (hRange : n ≤ maxSignificand) (h : Ends rest) :
    readNatural limit wanted (Nat.toDigits 10 n ++ rest) = .ok (n, rest) := by
  obtain ⟨c, more, hDigits⟩ := List.exists_cons_of_ne_nil (Nat.toDigits_ne_nil (b := 10) (n := n))
  have hDigit : c.isDigit = true :=
    Nat.isDigit_of_mem_toDigits (by omega) (by omega) (hDigits ▸ List.mem_cons_self)
  have hNumber := readNumber_digits hRange h
  rw [hDigits, List.cons_append] at hNumber ⊢
  unfold readNatural
  rw [skipBlanks_cons (isBlank_of_isDigit hDigit)]
  split
  · next hEq => cases hEq
  · next hEq =>
    cases hEq
    cases hDigit
  · next hEq =>
    cases hEq
    rw [if_pos hDigit, hNumber]
    show (if n ≤ limit then Except.ok (n, rest) else _) = _
    rw [if_pos hLimit]

/-- **A number in digits** is read as itself. -/
theorem spells_natural {limit n : Nat} (wanted : String) (hLimit : n ≤ limit)
    (hRange : n ≤ maxSignificand) :
    Spells (readNatural limit wanted) (Nat.toDigits 10 n) n := by
  obtain ⟨c, more, hDigits⟩ := List.exists_cons_of_ne_nil (Nat.toDigits_ne_nil (b := 10) (n := n))
  have hDigit : c.isDigit = true :=
    Nat.isDigit_of_mem_toDigits (by omega) (by omega) (hDigits ▸ List.mem_cons_self)
  have hTakes : Takes (readNatural limit wanted) (c :: more) n := fun rest hRest =>
    hDigits ▸ readNatural_digits wanted hLimit hRange hRest
  rw [hDigits]
  refine spells_of_takes (isBlank_of_isDigit hDigit) ?_ (fun s t hSame => ?_) hTakes
  · rintro rfl
    cases hDigit
  · unfold readNatural
    rw [hSame]

/-! ## Lists -/

theorem nextItem_close {blanks rest : List Char} (first : Bool) (hBlanks : Blanks blanks) :
    nextItem first (blanks ++ ']' :: rest) = .ok none := by
  unfold nextItem
  rw [skipBlanks_append hBlanks, skipBlanks_cons (by decide)]
  rfl

theorem nextItem_first {blanks rest : List Char} {c : Char} (hBlanks : Blanks blanks)
    (hBlank : isBlank c = false) (hOpen : c ≠ ']') :
    nextItem true (blanks ++ c :: rest) = .ok (some (c :: rest)) := by
  unfold nextItem
  rw [skipBlanks_append hBlanks, skipBlanks_cons hBlank]
  split
  · next hEq => cases hEq
  · next hEq => exact absurd (List.cons.inj hEq).1 hOpen
  · next hEq => rw [if_pos rfl, hEq]
  · rw [if_pos rfl]

theorem nextItem_next {blanks gap rest : List Char} {c : Char} (hBlanks : Blanks blanks)
    (hGap : Blanks gap) (hBlank : isBlank c = false) (hOpen : c ≠ ']') :
    nextItem false (blanks ++ ',' :: (gap ++ c :: rest)) = .ok (some (c :: rest)) := by
  have hItem : skipBlanks (gap ++ c :: rest) = c :: rest := by
    rw [skipBlanks_append hGap, skipBlanks_cons hBlank]
  unfold nextItem
  rw [skipBlanks_append hBlanks, skipBlanks_cons (by decide)]
  simp only [Bool.false_eq_true, if_false, hItem]
  split
  · next hEq => cases hEq
  · next hEq => exact absurd (List.cons.inj hEq).1 hOpen
  · rfl

theorem endList_close {blanks rest : List Char} (hBlanks : Blanks blanks) :
    endList (blanks ++ ']' :: rest) = .ok rest := by
  unfold endList
  rw [skipBlanks_append hBlanks, skipBlanks_cons (by decide)]
  rfl

/-- The text of a list behind its opening bracket (`first`) or behind one of its items, up to and
with the closing bracket. -/
inductive ItemsText (item : Reader α) : Bool → List Char → List α → Prop where
  | close {blanks : List Char} (first : Bool) (hBlanks : Blanks blanks) :
      ItemsText item first (blanks ++ [']']) []
  | first {blanks text tail : List Char} {x : α} {xs : List α} (hBlanks : Blanks blanks)
      (hItem : Spells item text x) (hTail : ItemsText item false tail xs) :
      ItemsText item true (blanks ++ (text ++ tail)) (x :: xs)
  | next {blanks gap text tail : List Char} {x : α} {xs : List α} (hBlanks : Blanks blanks)
      (hGap : Blanks gap) (hItem : Spells item text x) (hTail : ItemsText item false tail xs) :
      ItemsText item false (blanks ++ ',' :: (gap ++ (text ++ tail))) (x :: xs)

/-- What comes behind an item may stand behind a value. -/
theorem ItemsText.ends {item : Reader α} {text : List Char} {xs : List α}
    (h : ItemsText item false text xs) (rest : List Char) : Ends (text ++ rest) := by
  cases h with
  | close _ hBlanks =>
    rw [List.append_assoc]
    exact .append hBlanks (.cons (by simp))
  | next hBlanks hGap hItem hTail =>
    rw [List.append_assoc]
    exact .append hBlanks (.cons (by simp))

/-- One turn of reading a list: the item that comes next is taken, and the list goes on behind
it. -/
theorem readItems_item {item : Reader α} {fuel : Nat} {first : Bool} {s text tail rest : List Char}
    {x : α} {xs : List α} (hNext : nextItem first s = .ok (some (text ++ (tail ++ rest))))
    (hItem : Spells item text x) (hEnds : Ends (tail ++ rest))
    (hTail : readItems item fuel false (tail ++ rest) = .ok (xs, rest)) :
    readItems item (fuel + 1) first s = .ok (x :: xs, rest) := by
  have hRead := hItem.takes [] blanks_nil (tail ++ rest) hEnds
  rw [List.nil_append] at hRead
  rw [readItems, hNext]
  simp only [bind, Except.bind, pure, Except.pure, hRead, hTail]

/-- **A list** is read item by item. The text is longer than the list, so as many turns as it has
characters are enough. -/
theorem ItemsText.read {item : Reader α} {first : Bool} {text : List Char} {xs : List α}
    (h : ItemsText item first text xs) (rest : List Char) :
    ∀ fuel, text.length ≤ fuel → readItems item fuel first (text ++ rest) = .ok (xs, rest) := by
  induction h with
  | close first hBlanks =>
    intro fuel hFuel
    obtain ⟨fuel, rfl⟩ : ∃ n, fuel = n + 1 := ⟨fuel - 1, by simp at hFuel; omega⟩
    rw [List.append_assoc, List.singleton_append, readItems, nextItem_close first hBlanks]
    show (endList _).map _ = _
    rw [endList_close hBlanks]
    rfl
  | @first blanks text tail x xs hBlanks hItem hTail ih =>
    intro fuel hFuel
    -- an item has a character at least, so what comes behind it is shorter
    obtain ⟨c, more, rfl, hBlank, hOpen⟩ := hItem.starts
    obtain ⟨fuel, rfl⟩ : ∃ n, fuel = n + 1 := ⟨fuel - 1, by simp at hFuel; omega⟩
    refine readItems_item ?_ hItem (hTail.ends rest) (ih fuel (by simp at hFuel; omega))
    simpa only [List.cons_append, List.append_assoc] using nextItem_first hBlanks hBlank hOpen
  | @next blanks gap text tail x xs hBlanks hGap hItem hTail ih =>
    intro fuel hFuel
    obtain ⟨c, more, rfl, hBlank, hOpen⟩ := hItem.starts
    obtain ⟨fuel, rfl⟩ : ∃ n, fuel = n + 1 := ⟨fuel - 1, by simp at hFuel; omega⟩
    refine readItems_item ?_ hItem (hTail.ends rest) (ih fuel (by simp at hFuel; omega))
    simpa only [List.cons_append, List.append_assoc] using nextItem_next hBlanks hGap hBlank hOpen

/-- A list in its brackets. -/
theorem spells_list {item : Reader α} {text : List Char} {xs : List α}
    (h : ItemsText item true text xs) : Spells (readList item) ('[' :: text) xs := by
  refine spells_of_takes (by decide) (by decide) (fun s t hSame => ?_) fun rest _ => ?_
  · unfold readList
    rw [hSame]
  · unfold readList
    rw [List.cons_append, skipBlanks_cons (by decide)]
    exact h.read rest _ (by simp; omega)

/-! ## Objects -/

theorem nextKey_close {blanks rest : List Char} (first : Bool) (hBlanks : Blanks blanks) :
    nextKey first (blanks ++ '\x7d' :: rest) = .ok none := by
  unfold nextKey
  rw [skipBlanks_append hBlanks, skipBlanks_cons (by decide)]
  rfl

theorem nextKey_first {blanks rest : List Char} (hBlanks : Blanks blanks) :
    nextKey true (blanks ++ '\x22' :: rest) = .ok (some rest) := by
  unfold nextKey
  rw [skipBlanks_append hBlanks, skipBlanks_cons (by decide)]
  rfl

theorem nextKey_next {blanks gap rest : List Char} (hBlanks : Blanks blanks) (hGap : Blanks gap) :
    nextKey false (blanks ++ ',' :: (gap ++ '\x22' :: rest)) = .ok (some rest) := by
  have hKey : skipBlanks (gap ++ '\x22' :: rest) = '\x22' :: rest := by
    rw [skipBlanks_append hGap, skipBlanks_cons (by decide)]
  unfold nextKey
  rw [skipBlanks_append hBlanks, skipBlanks_cons (by decide)]
  split
  · next hEq => cases hEq
  · next hEq => cases hEq
  · next hEq =>
    cases hEq
    rw [if_neg (by simp), if_pos rfl, hKey]
    rfl

theorem behindBrace_close {blanks rest : List Char} (hBlanks : Blanks blanks) :
    behindBrace (blanks ++ '\x7d' :: rest) = rest := by
  unfold behindBrace
  rw [skipBlanks_append hBlanks, skipBlanks_cons (by decide)]
  rfl

/-- A text of a key behind its opening quote, up to and with the closing one. -/
def KeyText (name : String) (text : List Char) : Prop :=
  ∀ rest, readString (text ++ rest) = .ok (name.toList, rest)

/-- The text of an object behind its opening brace (`first`) or behind one of its members, up to and
with the closing brace, with what is known before it and after it. -/
inductive MembersText (member : String → α → Reader α) : Bool → α → List Char → α → Prop where
  | close {blanks : List Char} (first : Bool) (known : α) (hBlanks : Blanks blanks) :
      MembersText member first known (blanks ++ ['\x7d']) known
  | first {blanks key value tail : List Char} {name : String} {before known after : α}
      (hBlanks : Blanks blanks) (hKey : KeyText name key)
      (hValue : Takes (member name before) value known)
      (hTail : MembersText member false known tail after) :
      MembersText member true before (blanks ++ '\x22' :: (key ++ (value ++ tail))) after
  | next {blanks gap key value tail : List Char} {name : String} {before known after : α}
      (hBlanks : Blanks blanks) (hGap : Blanks gap) (hKey : KeyText name key)
      (hValue : Takes (member name before) value known)
      (hTail : MembersText member false known tail after) :
      MembersText member false before
        (blanks ++ ',' :: (gap ++ '\x22' :: (key ++ (value ++ tail)))) after

theorem MembersText.ends {member : String → α → Reader α} {text : List Char} {before after : α}
    (h : MembersText member false before text after) (rest : List Char) : Ends (text ++ rest) := by
  cases h with
  | close _ _ hBlanks =>
    rw [List.append_assoc]
    exact .append hBlanks (.cons (by simp))
  | next hBlanks hGap hKey hValue hTail =>
    rw [List.append_assoc]
    exact .append hBlanks (.cons (by simp))

theorem readMembers_close {member : String → α → Reader α} {blanks rest : List Char} (fuel : Nat)
    (first : Bool) (known : α) (hBlanks : Blanks blanks) :
    readMembers member (fuel + 1) first known (blanks ++ '\x7d' :: rest) = .ok (known, rest) := by
  rw [readMembers, nextKey_close first hBlanks]
  show Except.ok (known, behindBrace _) = _
  rw [behindBrace_close hBlanks]

/-- One turn of reading an object: the member that comes next is read with what is known so far, and
the object goes on behind it. -/
theorem readMembers_turn {member : String → α → Reader α} {fuel : Nat} {first : Bool}
    {s key rest : List Char} {name : String} {before : α}
    (hNext : nextKey first s = .ok (some (key ++ rest))) (hKey : KeyText name key) :
    readMembers member (fuel + 1) first before s =
      member name before rest >>= fun read => readMembers member fuel false read.1 read.2 := by
  rw [readMembers, hNext]
  simp only [bind, Except.bind, hKey _, String.ofList_toList]

/-- A turn in which the member is taken. -/
theorem readMembers_member {member : String → α → Reader α} {fuel : Nat} {first : Bool}
    {s key value tail rest : List Char} {name : String} {before known after : α}
    (hNext : nextKey first s = .ok (some (key ++ (value ++ (tail ++ rest)))))
    (hKey : KeyText name key) (hValue : Takes (member name before) value known)
    (hEnds : Ends (tail ++ rest))
    (hTail : readMembers member fuel false known (tail ++ rest) = .ok (after, rest)) :
    readMembers member (fuel + 1) first before s = .ok (after, rest) := by
  rw [readMembers_turn hNext hKey, hValue _ hEnds]
  exact hTail

/-- **An object** is read member by member. -/
theorem MembersText.read {member : String → α → Reader α} {first : Bool} {text : List Char}
    {before after : α} (h : MembersText member first before text after) (rest : List Char) :
    ∀ fuel, text.length ≤ fuel →
      readMembers member fuel first before (text ++ rest) = .ok (after, rest) := by
  induction h with
  | close first known hBlanks =>
    intro fuel hFuel
    obtain ⟨fuel, rfl⟩ : ∃ n, fuel = n + 1 := ⟨fuel - 1, by simp at hFuel; omega⟩
    rw [List.append_assoc]
    exact readMembers_close fuel first known hBlanks
  | @first blanks key value tail name before known after hBlanks hKey hValue hTail ih =>
    intro fuel hFuel
    -- a member has a quote at least, so what comes behind it is shorter
    obtain ⟨fuel, rfl⟩ : ∃ n, fuel = n + 1 := ⟨fuel - 1, by simp at hFuel; omega⟩
    refine readMembers_member ?_ hKey hValue (hTail.ends rest) (ih fuel (by simp at hFuel; omega))
    simpa only [List.cons_append, List.append_assoc] using nextKey_first hBlanks
  | @next blanks gap key value tail name before known after hBlanks hGap hKey hValue hTail ih =>
    intro fuel hFuel
    obtain ⟨fuel, rfl⟩ : ∃ n, fuel = n + 1 := ⟨fuel - 1, by simp at hFuel; omega⟩
    refine readMembers_member ?_ hKey hValue (hTail.ends rest) (ih fuel (by simp at hFuel; omega))
    simpa only [List.cons_append, List.append_assoc] using nextKey_next hBlanks hGap

theorem colon_behind {blanks rest : List Char} (hBlanks : Blanks blanks) :
    colon (blanks ++ ':' :: rest) = .ok rest := by
  unfold colon
  rw [skipBlanks_append hBlanks, skipBlanks_cons (by decide)]
  rfl

/-- The value of a known member that has not come yet, behind its colon. -/
theorem takes_once {read : Reader α} {blanks gap text : List Char} {x : α} (key : String)
    (hBlanks : Blanks blanks) (hGap : Blanks gap) (h : Spells read text x) :
    Takes (readOnce key none read) (blanks ++ ':' :: (gap ++ text)) (some x) := by
  intro rest hRest
  have hRead := h.takes gap hGap rest hRest
  rw [List.append_assoc] at hRead
  unfold readOnce
  rw [if_neg (by simp), List.append_assoc, List.cons_append, List.append_assoc]
  simp only [bind, Except.bind, pure, Except.pure, colon_behind hBlanks, hRead]

/-- A structure written as an object. -/
theorem spells_object {wanted : String} {object list : Reader α} {text : List Char} {x : α}
    (h : ∀ rest, object (text ++ rest) = .ok (x, rest)) :
    Spells (readStructure wanted object list) ('\x7b' :: text) x := by
  refine spells_of_takes (by decide) (by decide) (fun s t hSame => ?_) fun rest _ => ?_
  · unfold readStructure
    rw [hSame]
  · unfold readStructure
    rw [List.cons_append, skipBlanks_cons (by decide)]
    exact h rest

end TreeWatch.Json
