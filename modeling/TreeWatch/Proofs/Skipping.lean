import TreeWatch.Json.Skip
import TreeWatch.Proofs.Grammar

/-!
# JSON values are passed over

The grammar of JSON, as texts: strings with all their escapes, numbers, and values of any nesting
with blanks between their parts (`JsonText`). Whatever value stands in a text, passing over it ends
right behind it. A string that has to be understood is decoded on the way (`StringText`); one that
is only passed over need not be a text at all, since an escape may give half of a pair.

Main results:
  * `StringText.read`: a string is decoded to what it spells
  * `JsonText.skip`, `JsonText.skipValue`: a value is passed over as a whole
-/

namespace TreeWatch.Json

/-! ## Strings -/

/-- A text that spells a string, behind its opening quote, up to and with the closing one. A
character stands for itself or is written as an escape: a letter, the four digits of its number, or
those of the two halves it is made of. -/
inductive StringText : List Char → List Char → Prop where
  | close : StringText ['\x22'] []
  | plain {c : Char} {text s : List Char} (hQuote : c ≠ '\x22') (hBackslash : c ≠ '\\')
      (hControl : 0x20 ≤ c.toNat) (hTail : StringText text s) : StringText (c :: text) (c :: s)
  | letter {letter c : Char} {text s : List Char} (hLetter : letterEscape? letter = some c)
      (hTail : StringText text s) : StringText ('\\' :: letter :: text) (c :: s)
  | unit {h₁ h₂ h₃ h₄ c : Char} {text s : List Char} (hUnit : hex4? h₁ h₂ h₃ h₄ = some c.toNat)
      (hTail : StringText text s) :
      StringText ('\\' :: 'u' :: h₁ :: h₂ :: h₃ :: h₄ :: text) (c :: s)
  | pair {h₁ h₂ h₃ h₄ t₁ t₂ t₃ t₄ c : Char} {lead trail : Nat} {text s : List Char}
      (hLead : hex4? h₁ h₂ h₃ h₄ = some lead) (hTrail : hex4? t₁ t₂ t₃ t₄ = some trail)
      (hLeading : 0xD800 ≤ lead ∧ lead ≤ 0xDBFF) (hTrailing : 0xDC00 ≤ trail ∧ trail ≤ 0xDFFF)
      (hChar : c.toNat = 0x10000 + (lead - 0xD800) * 0x400 + (trail - 0xDC00))
      (hTail : StringText text s) :
      StringText ('\\' :: 'u' :: h₁ :: h₂ :: h₃ :: h₄ ::
        '\\' :: 'u' :: t₁ :: t₂ :: t₃ :: t₄ :: text) (c :: s)

theorem readString_pair {a b c d e f g h : Char} {lead trail : Nat} (rest : List Char)
    (hLead : hex4? a b c d = some lead) (hTrail : hex4? e f g h = some trail)
    (hLeading : isLeading lead = true) (hTrailing : isTrailing trail = true) :
    readString ('\\' :: 'u' :: a :: b :: c :: d :: '\\' :: 'u' :: e :: f :: g :: h :: rest) =
      consChar (pairChar lead trail) (readString rest) := by
  have hNotTrailing : isTrailing lead = false := by
    simp [isLeading, isTrailing] at hLeading ⊢
    omega
  rw [readString.eq_def]
  dsimp only
  rw [if_neg (by decide), if_pos rfl, if_pos rfl, hLead]
  dsimp only
  rw [if_neg (by simp [hNotTrailing]), if_pos hLeading, if_pos rfl, if_pos rfl, hTrail]
  dsimp only
  rw [if_pos hTrailing]

/-- The number of a character is that of no half. -/
theorem not_half (c : Char) : isTrailing c.toNat = false ∧ isLeading c.toNat = false := by
  have hValid : c.toNat < 0xD800 ∨ 0xDFFF < c.toNat ∧ c.toNat < 0x110000 := c.valid
  simp [isTrailing, isLeading]
  omega

/-- **A string** is decoded to what it spells. -/
theorem StringText.read {text s : List Char} (h : StringText text s) (rest : List Char) :
    readString (text ++ rest) = .ok (s, rest) := by
  induction h with
  | close => exact readString_close rest
  | plain hQuote hBackslash hControl _ ih =>
    rw [List.cons_append, readString_plain _ hQuote hBackslash (Nat.not_lt.mpr hControl), ih]
    rfl
  | letter hLetter _ ih =>
    rw [List.cons_append, List.cons_append, readString_letter _ hLetter, ih]
    rfl
  | @unit _ _ _ _ c _ _ hUnit _ ih =>
    simp only [List.cons_append]
    rw [readString_unit _ hUnit (not_half c).1 (not_half c).2, ih, Char.ofNat_toNat]
    rfl
  | @pair _ _ _ _ _ _ _ _ c lead trail _ _ hLead hTrail hLeading hTrailing hChar _ ih =>
    have hPair : pairChar lead trail = c := by
      rw [pairChar, show (lead - 0xD800) * 0x400 + (trail - 0xDC00) + 0x10000 = c.toNat by omega,
        Char.ofNat_toNat]
    simp only [List.cons_append]
    rw [readString_pair _ hLead hTrail (by simpa [isLeading] using hLeading)
      (by simpa [isTrailing] using hTrailing), ih, hPair]
    rfl

/-- A string without quotes, backslashes and control characters is its own text. -/
theorem stringText_plain {s : String}
    (h : s.toList.all fun c => c ≠ '\x22' ∧ c ≠ '\\' ∧ 0x20 ≤ c.toNat) :
    StringText (s.toList ++ ['\x22']) s.toList := by
  generalize s.toList = s at h
  induction s with
  | nil => exact .close
  | cons c s ih =>
    obtain ⟨⟨hQuote, hBackslash, hControl⟩, hMore⟩ := by simpa using h
    exact .plain hQuote hBackslash hControl (ih (by simpa using hMore))

/-- A text of a string that nobody decodes: any four digits make an escape. -/
inductive RawText : List Char → Prop where
  | close : RawText ['\x22']
  | plain {c : Char} {text : List Char} (hQuote : c ≠ '\x22') (hBackslash : c ≠ '\\')
      (hControl : 0x20 ≤ c.toNat) (hTail : RawText text) : RawText (c :: text)
  | letter {letter c : Char} {text : List Char} (hLetter : letterEscape? letter = some c)
      (hTail : RawText text) : RawText ('\\' :: letter :: text)
  | unit {h₁ h₂ h₃ h₄ : Char} {unit : Nat} {text : List Char}
      (hUnit : hex4? h₁ h₂ h₃ h₄ = some unit) (hTail : RawText text) :
      RawText ('\\' :: 'u' :: h₁ :: h₂ :: h₃ :: h₄ :: text)

theorem RawText.skip {text : List Char} (h : RawText text) (rest : List Char) :
    skipString (text ++ rest) = .ok rest := by
  induction h with
  | close =>
    rw [List.singleton_append, skipString.eq_def]
    rfl
  | plain hQuote hBackslash hControl _ ih =>
    rw [List.cons_append, skipString.eq_def]
    dsimp only
    rw [if_neg hQuote, if_neg hBackslash, if_neg (Nat.not_lt.mpr hControl), ih]
  | @letter letter _ _ hLetter _ ih =>
    have hNoUnit : letter ≠ 'u' := by
      rintro rfl
      cases hLetter
    rw [List.cons_append, List.cons_append, skipString.eq_def]
    dsimp only
    rw [if_neg (by decide), if_pos rfl, if_neg hNoUnit, hLetter, ih]
  | unit hUnit _ ih =>
    simp only [List.cons_append]
    rw [skipString.eq_def]
    dsimp only
    rw [if_neg (by decide), if_pos rfl, if_pos rfl, hUnit, ih]

/-! ## Numbers -/

/-- Decimal digits, one at least. -/
structure Digits (s : List Char) : Prop where
  nonempty : s ≠ []
  digits : ∀ c ∈ s, c.isDigit = true

theorem digits_one {c : Char} (h : c.isDigit = true) : Digits [c] :=
  ⟨List.cons_ne_nil c [], List.forall_mem_singleton.mpr h⟩

/-- The whole part of a number: a zero alone, or digits of which the first is none. -/
inductive WholeText : List Char → Prop where
  | zero : WholeText ['0']
  | digits {c : Char} {more : List Char} (hZero : c ≠ '0') (hDigits : Digits (c :: more)) :
      WholeText (c :: more)

/-- The decimals behind their point, if there are any. -/
inductive FractionText : List Char → Prop where
  | none : FractionText []
  | digits {ds : List Char} (hDigits : Digits ds) : FractionText ('.' :: ds)

/-- The power of ten, if one is given. -/
inductive ExponentText : List Char → Prop where
  | none : ExponentText []
  | digits {mark : Char} {sign ds : List Char} (hMark : mark = 'e' ∨ mark = 'E')
      (hSign : sign = [] ∨ sign = ['+'] ∨ sign = ['-']) (hDigits : Digits ds) :
      ExponentText (mark :: (sign ++ ds))

/-- A number without a sign. -/
inductive UnsignedText : List Char → Prop where
  | number {whole fraction exponent : List Char} (hWhole : WholeText whole)
      (hFraction : FractionText fraction) (hExponent : ExponentText exponent) :
      UnsignedText (whole ++ (fraction ++ exponent))

/-- No digit goes on with what came before. -/
def NoDigit (rest : List Char) : Prop :=
  ∀ c, rest.head? = some c → c.isDigit = false

theorem Ends.noDigit {rest : List Char} (h : Ends rest) : NoDigit rest :=
  fun _ hHead => (h.head_ne hHead).1

theorem NoDigit.head {rest : List Char} (h : NoDigit rest) :
    ¬ rest.head?.any Char.isDigit = true := by
  cases rest with
  | nil => simp
  | cons c more => simp [h c rfl]

theorem dropWhile_digits {ds rest : List Char} (h : ∀ c ∈ ds, c.isDigit = true)
    (hRest : NoDigit rest) : (ds ++ rest).dropWhile Char.isDigit = rest := by
  rw [List.dropWhile_append_of_pos h]
  cases rest with
  | nil => rfl
  | cons c more => exact List.dropWhile_cons_of_neg (by simp [hRest c rfl])

theorem skipExponent_digits {sign ds rest : List Char}
    (hSign : sign = [] ∨ sign = ['+'] ∨ sign = ['-']) (hDigits : Digits ds) (hRest : NoDigit rest) :
    skipExponent (sign ++ (ds ++ rest)) = .ok rest := by
  obtain ⟨c, more, rfl⟩ := List.exists_cons_of_ne_nil hDigits.nonempty
  have hDigit := hDigits.digits c List.mem_cons_self
  have hMore := dropWhile_digits (fun d hd => hDigits.digits d (List.mem_cons_of_mem _ hd)) hRest
  -- behind the sign, if there is one
  have hBehind : (if c.isDigit then .ok ((more ++ rest).dropWhile Char.isDigit)
      else .error (.past .invalidNumber (c :: (more ++ rest))) : Except Fault (List Char)) =
        .ok rest := by
    rw [if_pos hDigit, hMore]
  rcases hSign with rfl | rfl | rfl
  · unfold skipExponent
    split
    · next hEq =>
      cases hEq
      cases hDigit
    · next hEq =>
      cases hEq
      cases hDigit
    · exact hBehind
  · exact hBehind
  · exact hBehind

/-- An exponent, or none, ends what was passed over of a number. -/
theorem skipDecimals_digits {ds exponent rest : List Char} (hDigits : Digits ds)
    (hExponent : ExponentText exponent) (hRest : Ends rest) :
    skipDecimals (ds ++ (exponent ++ rest)) = .ok rest := by
  obtain ⟨c, more, rfl⟩ := List.exists_cons_of_ne_nil hDigits.nonempty
  have hFirst : ((c :: more ++ (exponent ++ rest)).head?.any Char.isDigit) = true := by
    simpa using hDigits.digits c List.mem_cons_self
  unfold skipDecimals
  rw [if_pos hFirst]
  cases hExponent with
  | none =>
    rw [List.nil_append, dropWhile_digits hDigits.digits hRest.noDigit]
    split
    · exact absurd rfl (hRest.head_ne rfl).2.2.1
    · exact absurd rfl (hRest.head_ne rfl).2.2.2
    · rfl
  | @digits mark sign es hMark hSign hMore =>
    have hStop : NoDigit (mark :: (sign ++ es) ++ rest) := by
      intro d hHead
      cases hHead
      rcases hMark with rfl | rfl <;> decide
    rw [dropWhile_digits hDigits.digits hStop, List.cons_append, List.append_assoc]
    rcases hMark with rfl | rfl <;> exact skipExponent_digits hSign hMore hRest.noDigit

theorem skipFraction_text {fraction exponent rest : List Char} (hFraction : FractionText fraction)
    (hExponent : ExponentText exponent) (hRest : Ends rest) :
    skipFraction (fraction ++ (exponent ++ rest)) = .ok rest := by
  cases hFraction with
  | digits hDigits => exact skipDecimals_digits hDigits hExponent hRest
  | none =>
    cases hExponent with
    | digits hMark hSign hDigits =>
      rw [List.nil_append, List.cons_append, List.append_assoc]
      rcases hMark with rfl | rfl <;> exact skipExponent_digits hSign hDigits hRest.noDigit
    | none =>
      rw [List.nil_append, List.nil_append]
      unfold skipFraction
      split
      · exact absurd rfl (hRest.head_ne rfl).2.1
      · exact absurd rfl (hRest.head_ne rfl).2.2.1
      · exact absurd rfl (hRest.head_ne rfl).2.2.2
      · rfl

/-- What comes behind the whole part starts with no digit. -/
theorem noDigit_behind_whole {fraction exponent rest : List Char}
    (hFraction : FractionText fraction) (hExponent : ExponentText exponent) (hRest : Ends rest) :
    NoDigit (fraction ++ (exponent ++ rest)) := by
  intro d hHead
  cases hFraction with
  | digits hDigits =>
    cases hHead
    decide
  | none =>
    cases hExponent with
    | none => exact hRest.noDigit d hHead
    | digits hMark _ _ =>
      cases hHead
      rcases hMark with rfl | rfl <;> decide

/-- A number is passed over. -/
theorem UnsignedText.skip {text rest : List Char} (h : UnsignedText text) (hRest : Ends rest) :
    skipNumber (text ++ rest) = .ok rest := by
  obtain @⟨whole, fraction, exponent, hWhole, hFraction, hExponent⟩ := h
  have hBehind := skipFraction_text hFraction hExponent hRest
  have hStop := noDigit_behind_whole hFraction hExponent hRest
  rw [List.append_assoc, List.append_assoc]
  cases hWhole with
  | zero =>
    rw [List.singleton_append]
    show (if _ then _ else skipFraction (fraction ++ (exponent ++ rest))) = _
    rw [if_neg hStop.head, hBehind]
  | @digits c more hZero hDigits =>
    have hMore := dropWhile_digits (fun d hd => hDigits.digits d (List.mem_cons_of_mem _ hd)) hStop
    rw [List.cons_append]
    unfold skipNumber
    split
    · next hEq => cases hEq
    · next hEq => exact absurd (List.cons.inj hEq).1 hZero
    · next hEq =>
      cases hEq
      rw [if_pos (hDigits.digits c List.mem_cons_self), hMore, hBehind]

/-! ## Values -/

/-- What stands before an item of a list or a member of an object: blanks, and a comma between them
behind the first one. -/
inductive Opening : Bool → List Char → Prop where
  | first {blanks : List Char} (hBlanks : Blanks blanks) : Opening true blanks
  | next {blanks gap : List Char} (hBlanks : Blanks blanks) (hGap : Blanks gap) :
      Opening false (blanks ++ ',' :: gap)

/-- What stands between a key and its value. -/
inductive ColonText : List Char → Prop where
  | colon {blanks gap : List Char} (hBlanks : Blanks blanks) (hGap : Blanks gap) :
      ColonText (blanks ++ ':' :: gap)

/-- A text of JSON: a value, or what is left of a list or an object behind its opening bracket
(`first`) or behind one of its parts, up to and with the closing bracket. -/
inductive JsonText : Pending → List Char → Prop where
  | nullWord : JsonText .value ['n', 'u', 'l', 'l']
  | trueWord : JsonText .value ['t', 'r', 'u', 'e']
  | falseWord : JsonText .value ['f', 'a', 'l', 's', 'e']
  | number {text : List Char} (hNumber : UnsignedText text) : JsonText .value text
  | negative {text : List Char} (hNumber : UnsignedText text) : JsonText .value ('-' :: text)
  | string {text : List Char} (hString : RawText text) : JsonText .value ('\x22' :: text)
  | list {text : List Char} (hItems : JsonText (.items true) text) : JsonText .value ('[' :: text)
  | object {text : List Char} (hMembers : JsonText (.members true) text) :
      JsonText .value ('\x7b' :: text)
  | listEnd {blanks : List Char} (first : Bool) (hBlanks : Blanks blanks) :
      JsonText (.items first) (blanks ++ [']'])
  | item {opening value tail : List Char} {first : Bool} (hOpening : Opening first opening)
      (hValue : JsonText .value value) (hTail : JsonText (.items false) tail) :
      JsonText (.items first) (opening ++ (value ++ tail))
  | objectEnd {blanks : List Char} (first : Bool) (hBlanks : Blanks blanks) :
      JsonText (.members first) (blanks ++ ['\x7d'])
  | member {opening key colon value tail : List Char} {first : Bool}
      (hOpening : Opening first opening) (hKey : RawText key) (hColon : ColonText colon)
      (hValue : JsonText .value value) (hTail : JsonText (.members false) tail) :
      JsonText (.members first) (opening ++ '\x22' :: (key ++ (colon ++ (value ++ tail))))

theorem Opening.ends {opening : List Char} (h : Opening false opening) (rest : List Char) :
    Ends (opening ++ rest) := by
  cases h with
  | next hBlanks _ =>
    rw [List.append_assoc]
    exact .append hBlanks (.cons (by simp))

/-- What comes behind a part may stand behind a value. -/
theorem JsonText.ends {kind : Pending} {text : List Char} (h : JsonText kind text)
    (hKind : kind = .items false ∨ kind = .members false) (rest : List Char) :
    Ends (text ++ rest) := by
  cases h with
  | listEnd _ hBlanks | objectEnd _ hBlanks =>
    rw [List.append_assoc]
    exact .append hBlanks (.cons (by simp))
  | item hOpening _ _ | member hOpening _ _ _ _ =>
    obtain rfl : _ = false := by simpa using hKind
    rw [List.append_assoc]
    exact hOpening.ends _
  | nullWord | trueWord | falseWord | number | negative | string | list | object =>
    simp at hKind

theorem UnsignedText.starts {text : List Char} (h : UnsignedText text) :
    ∃ c more, text = c :: more ∧ c.isDigit = true := by
  obtain ⟨hWhole, -, -⟩ := h
  cases hWhole with
  | zero => exact ⟨_, _, rfl, by decide⟩
  | digits _ hDigits => exact ⟨_, _, rfl, hDigits.digits _ List.mem_cons_self⟩

/-- A value starts with no blank, and with no bracket that closes a list. -/
theorem JsonText.starts {text : List Char} (h : JsonText .value text) :
    ∃ c more, text = c :: more ∧ isBlank c = false ∧ c ≠ ']' := by
  cases h with
  | number hNumber =>
    obtain ⟨c, more, rfl, hDigit⟩ := hNumber.starts
    refine ⟨c, more, rfl, isBlank_of_isDigit hDigit, ?_⟩
    rintro rfl
    cases hDigit
  | nullWord | trueWord | falseWord | negative | string | list | object =>
    exact ⟨_, _, rfl, by decide, by decide⟩

/-! ## Turns of passing over -/

/-- Blanks in front are passed over first. -/
theorem skip_blanks {blanks : List Char} (h : Blanks blanks) (fuel : Nat) (kind : Pending)
    (s : List Char) : skip (fuel + 1) kind (blanks ++ s) = skip (fuel + 1) kind s := by
  cases kind <;> rw [skip.eq_def, skip.eq_def] <;> dsimp only <;> rw [skipBlanks_append h]

theorem skip_digit (fuel : Nat) {c : Char} {rest : List Char} (h : c.isDigit = true) :
    skip (fuel + 1) .value (c :: rest) = skipNumber (c :: rest) := by
  rw [skip.eq_def]
  dsimp only
  rw [skipBlanks_cons (isBlank_of_isDigit h)]
  -- no other value starts with a digit
  split
  · next hEq => cases hEq
  all_goals
    next hEq =>
      cases hEq
      first
        | cases h
        | rw [if_pos h]

theorem ColonText.read {text : List Char} (h : ColonText text) :
    ∃ gap, Blanks gap ∧ ∀ s, Json.colon (text ++ s) = .ok (gap ++ s) := by
  obtain @⟨blanks, gap, hBlanks, hGap⟩ := h
  refine ⟨gap, hGap, fun s => ?_⟩
  rw [List.append_assoc, List.cons_append, colon_behind hBlanks]

theorem skip_listEnd {blanks : List Char} (h : Blanks blanks) (fuel : Nat) (first : Bool)
    (rest : List Char) : skip (fuel + 1) (.items first) (blanks ++ ']' :: rest) = .ok rest := by
  rw [skip_blanks h, skip.eq_def]
  rfl

theorem skip_item {first : Bool} {opening : List Char} (h : Opening first opening) (fuel : Nat)
    {c : Char} {more : List Char} (hBlank : isBlank c = false) (hOpen : c ≠ ']') :
    skip (fuel + 2) (.items first) (opening ++ c :: more) = (do
      let after ← skip (fuel + 1) .value (c :: more)
      skip (fuel + 1) (.items false) after) := by
  cases h with
  | first hBlanks =>
    rw [skip_blanks hBlanks, skip.eq_def]
    dsimp only
    rw [skipBlanks_cons hBlank]
    split
    · next hEq => cases hEq
    · next hEq => exact absurd (List.cons.inj hEq).1 hOpen
    · next hEq =>
      cases hEq
      rw [if_pos rfl]
  | @next _ gap hBlanks hGap =>
    rw [List.append_assoc, skip_blanks hBlanks, List.cons_append, skip.eq_def]
    dsimp only
    rw [skipBlanks_cons (by decide)]
    show (do
      let after ← skip (fuel + 1) .value (gap ++ c :: more)
      skip (fuel + 1) (.items false) after) = _
    rw [skip_blanks hGap]

theorem skip_objectEnd {blanks : List Char} (h : Blanks blanks) (fuel : Nat) (first : Bool)
    (rest : List Char) :
    skip (fuel + 1) (.members first) (blanks ++ '\x7d' :: rest) = .ok rest := by
  rw [skip_blanks h, skip.eq_def]
  rfl

theorem skip_member {first : Bool} {opening : List Char} (h : Opening first opening) (fuel : Nat)
    (key : List Char) :
    skip (fuel + 1) (.members first) (opening ++ '\x22' :: key) = (do
      let after ← skipString key
      let behind ← Json.colon after
      let tail ← skip fuel .value behind
      skip fuel (.members false) tail) := by
  cases h with
  | first hBlanks =>
    rw [skip_blanks hBlanks, skip.eq_def]
    rfl
  | @next _ gap hBlanks hGap =>
    have hKey : skipBlanks (gap ++ '\x22' :: key) = '\x22' :: key := by
      rw [skipBlanks_append hGap, skipBlanks_cons (by decide)]
    rw [List.append_assoc, skip_blanks hBlanks, List.cons_append, skip.eq_def]
    dsimp only
    rw [skipBlanks_cons (by decide)]
    split
    · next hEq => cases hEq
    · next hEq => cases hEq
    · next hEq =>
      cases hEq
      rw [if_pos (.inr rfl), if_neg (by decide), hKey]
      rfl

/-! ## Runs of passing over -/

/-- What is passed over next asks for a turn of its own before it takes a character. -/
def Pending.room : Pending → Nat
  | .value => 0
  | .items _ | .members _ => 1

/-- **A value is passed over as a whole**, and so is what is left of a list or an object. Every
second turn takes a character, so the text lasts as long as the turns do. -/
theorem JsonText.skip {kind : Pending} {text : List Char} (h : JsonText kind text) :
    ∀ {rest : List Char} {fuel : Nat}, (kind = .value → Ends rest) →
      2 * text.length + kind.room ≤ fuel + 1 →
        Json.skip (fuel + 1) kind (text ++ rest) = .ok rest := by
  -- by induction on the text; a part of it leaves turns enough for what comes behind it
  induction h with
  | nullWord | trueWord | falseWord =>
    intro rest fuel _ _
    rw [Json.skip.eq_def]
    rfl
  | number hNumber =>
    intro rest fuel hRest _
    have hSkip := hNumber.skip (hRest rfl)
    obtain ⟨c, more, rfl, hDigit⟩ := hNumber.starts
    exact (skip_digit fuel hDigit).trans hSkip
  | negative hNumber =>
    intro rest fuel hRest _
    rw [Json.skip.eq_def]
    exact hNumber.skip (hRest rfl)
  | string hString =>
    intro rest fuel _ _
    rw [Json.skip.eq_def]
    exact hString.skip rest
  | list _ ih | object _ ih =>
    intro rest fuel _ hFuel
    simp [Pending.room] at hFuel
    obtain ⟨fuel, rfl⟩ : ∃ n, fuel = n + 1 := ⟨fuel - 1, by omega⟩
    rw [Json.skip.eq_def]
    exact ih (by simp) (by simp [Pending.room]; omega)
  | listEnd first hBlanks =>
    intro rest fuel _ _
    rw [List.append_assoc]
    exact skip_listEnd hBlanks fuel first rest
  | objectEnd first hBlanks =>
    intro rest fuel _ _
    rw [List.append_assoc]
    exact skip_objectEnd hBlanks fuel first rest
  | @item opening value tail first hOpening hValue hTail ihValue ihTail =>
    intro rest fuel _ hFuel
    have hEnds := hTail.ends (.inl rfl) rest
    -- a value has a character at least, so the items behind it have a turn to spare
    obtain ⟨c, more, rfl, hBlank, hOpen⟩ := hValue.starts
    simp [Pending.room] at hFuel
    obtain ⟨fuel, rfl⟩ : ∃ n, fuel = n + 1 := ⟨fuel - 1, by omega⟩
    have hHere := @ihValue _ fuel (fun _ => hEnds) (by simp [Pending.room]; omega)
    have hThere := @ihTail rest fuel (by simp) (by simp [Pending.room]; omega)
    rw [List.append_assoc, List.append_assoc, List.cons_append,
      skip_item hOpening fuel hBlank hOpen, ← List.cons_append, hHere]
    exact hThere
  | @member opening key colon value tail first hOpening hKey hColon hValue hTail ihValue ihTail =>
    intro rest fuel _ hFuel
    have hEnds := hTail.ends (.inr rfl) rest
    obtain ⟨gap, hGap, hBehind⟩ := hColon.read
    simp [Pending.room] at hFuel
    obtain ⟨fuel, rfl⟩ : ∃ n, fuel = n + 1 := ⟨fuel - 1, by omega⟩
    have hHere := @ihValue _ fuel (fun _ => hEnds) (by simp [Pending.room]; omega)
    have hThere := @ihTail rest fuel (by simp) (by simp [Pending.room]; omega)
    simp only [List.append_assoc, List.cons_append]
    rw [skip_member hOpening, hKey.skip]
    simp only [bind, Except.bind]
    rw [hBehind]
    simp only [skip_blanks hGap, hHere, hThere]

/-- A value behind blanks is passed over as a whole. -/
theorem JsonText.skipValue {blanks text rest : List Char} (h : JsonText .value text)
    (hBlanks : Blanks blanks) (hRest : Ends rest) :
    Json.skipValue (blanks ++ (text ++ rest)) = .ok rest := by
  unfold Json.skipValue
  rw [skip_blanks hBlanks]
  exact h.skip (fun _ => hRest) (by simp [Pending.room]; omega)

end TreeWatch.Json
