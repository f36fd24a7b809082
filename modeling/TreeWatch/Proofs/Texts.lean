import TreeWatch.Text.Blank
import TreeWatch.Text.Lines
import TreeWatch.Text.Numeral
import Mathlib.Data.List.Induction

/-!
# Texts, read again after they were written

Lines that were written one after another are read as the same lines, up to a carriage return at
the end of each. Cutting the blanks off a text does not see that carriage return, and nothing is
cut off a text that starts and ends with something else than a blank. A numeral that was written
is read as the same number.

Main results:
  * `lines_unlines`: lines without line feeds come back
  * `trim_dropReturn`, `trim_eq_self`: what is cut off
  * `read_write`: numbers come back
-/

namespace TreeWatch.Text

/-! ## Lines -/

theorem not_mem_dropReturn {line : List Char} {c : Char} (h : c ∉ line) : c ∉ dropReturn line := by
  unfold dropReturn
  split
  · exact fun hMem => h ((List.dropLast_sublist line).subset hMem)
  · exact h

/-- No line has a line feed in it. -/
theorem not_mem_linesFrom (s : List Char) :
    ∀ {read : List Char}, '\n' ∉ read → ∀ line ∈ linesFrom read s, '\n' ∉ line := by
  induction s with
  | nil =>
    intro read hRead line hLine
    unfold linesFrom at hLine
    split at hLine
    · simp at hLine
    · rw [List.mem_singleton.mp hLine]
      simpa using hRead
  | cons c rest ih =>
    intro read hRead line hLine
    unfold linesFrom at hLine
    split at hLine
    -- the line feed ends the line that was begun, and the next one starts from nothing
    · rcases List.mem_cons.mp hLine with rfl | hLater
      · exact not_mem_dropReturn (by simpa using hRead)
      · exact ih (List.not_mem_nil) line hLater
    · rename_i hOther
      exact ih (by simp [hRead, Ne.symm hOther]) line hLine

theorem not_mem_lines {s line : List Char} (h : line ∈ lines s) : '\n' ∉ line :=
  not_mem_linesFrom s List.not_mem_nil line h

/-- Characters other than line feeds are read into the line that was begun. -/
theorem linesFrom_append {line : List Char} (h : '\n' ∉ line) (rest : List Char) :
    ∀ read : List Char, linesFrom read (line ++ rest) = linesFrom (line.reverse ++ read) rest := by
  induction line with
  | nil => exact fun _ => rfl
  | cons c line ih =>
    intro read
    obtain ⟨hc, hLine⟩ : '\n' ≠ c ∧ '\n' ∉ line := by simpa using h
    rw [List.cons_append, linesFrom, if_neg (Ne.symm hc), ih hLine]
    simp

/-- **Lines come back**, up to the carriage return that each may end in. -/
theorem lines_unlines {ls : List (List Char)} (h : ∀ line ∈ ls, '\n' ∉ line) :
    lines (unlines ls) = ls.map dropReturn := by
  induction ls with
  | nil => rfl
  | cons line rest ih =>
    have hLine := h line (List.mem_cons_self ..)
    have hRest := ih fun other hOther => h other (List.mem_cons_of_mem _ hOther)
    unfold lines at hRest ⊢
    rw [unlines, List.flatMap_cons, List.append_assoc, linesFrom_append hLine, List.append_nil]
    show linesFrom line.reverse ('\n' :: unlines rest) = _
    rw [linesFrom, if_pos rfl, List.reverse_reverse, hRest, List.map_cons]

theorem head?_dropReturn {line : List Char} {c : Char} (h : (dropReturn line).head? = some c) :
    line.head? = some c := by
  unfold dropReturn at h
  split at h
  · rw [List.head?_dropLast] at h
    split at h
    · exact h
    · cases h
  · exact h

/-- The first line starts as the text does, unless nothing is left of it. -/
theorem head?_linesFrom (s : List Char) :
    ∀ {read line : List Char} {rest : List (List Char)} {c : Char},
      linesFrom read s = line :: rest → line.head? = some c →
      (read.reverse ++ s).head? = some c := by
  induction s with
  | nil =>
    intro read line rest c hLines hHead
    unfold linesFrom at hLines
    split at hLines
    · cases hLines
    · cases hLines
      simpa using hHead
  | cons d s ih =>
    intro read line rest c hLines hHead
    unfold linesFrom at hLines
    split at hLines
    · cases hLines
      rw [List.head?_append, head?_dropReturn hHead, Option.some_or]
    · have hLater := ih hLines hHead
      rw [List.reverse_cons, List.append_assoc] at hLater
      exact hLater

theorem head?_lines {s line : List Char} {rest : List (List Char)} {c : Char}
    (hLines : lines s = line :: rest) (hHead : line.head? = some c) : s.head? = some c :=
  head?_linesFrom s hLines hHead

/-! ## Blanks -/

theorem trimEnd_concat {s : List Char} {c : Char} (h : isBlank c = true) :
    trimEnd (s ++ [c]) = trimEnd s := by
  simp [trimEnd, h]

/-- A carriage return at the end is a blank there. -/
theorem trim_dropReturn (s : List Char) : trim (dropReturn s) = trim s := by
  unfold dropReturn
  split
  · rename_i hLast
    obtain ⟨init, rfl⟩ := List.getLast?_eq_some_iff.mp hLast
    have hBlank : isBlank '\r' = true := rfl
    rw [List.dropLast_concat, trim, trim, trimStart, trimStart, List.dropWhile_append]
    -- without anything else the carriage return is cut off at the start
    split
    · rename_i hNone
      rw [List.isEmpty_iff.mp hNone]
      rfl
    · exact (trimEnd_concat hBlank).symm
  · rfl

theorem trimStart_eq_self {s : List Char} (h : ∀ c, s.head? = some c → isBlank c = false) :
    trimStart s = s := by
  cases s with
  | nil => rfl
  | cons c rest => exact List.dropWhile_cons_of_neg (by simp [h c rfl])

theorem trimEnd_eq_self {s : List Char} (h : ∀ c, s.getLast? = some c → isBlank c = false) :
    trimEnd s = s := by
  have hReverse : trimStart s.reverse = s.reverse :=
    trimStart_eq_self fun c hc => h c (List.head?_reverse ▸ hc)
  unfold trimStart at hReverse
  rw [trimEnd, hReverse, List.reverse_reverse]

/-- Nothing is cut off a text without blanks at its ends. -/
theorem trim_eq_self {s : List Char} (hFirst : ∀ c, s.head? = some c → isBlank c = false)
    (hLast : ∀ c, s.getLast? = some c → isBlank c = false) : trim s = s := by
  rw [trim, trimStart_eq_self hFirst, trimEnd_eq_self hLast]

/-- A text without any blanks is left as it is. -/
theorem trim_of_no_blanks {s : List Char} (h : ∀ c ∈ s, isBlank c = false) : trim s = s :=
  trim_eq_self (fun c hc => h c (List.mem_of_head? hc)) fun c hc => h c (List.mem_of_getLast? hc)

theorem isBlank_of_isDigit {c : Char} (h : c.isDigit = true) : isBlank c = false := by
  have hRange : 48 ≤ c.toNat ∧ c.toNat ≤ 57 := by
    simpa [Char.isDigit, UInt32.le_iff_toNat_le] using h
  simp only [isBlank, Bool.or_eq_false_iff, Bool.and_eq_false_iff, decide_eq_false_iff_not,
    beq_eq_false_iff_ne]
  omega

end TreeWatch.Text

namespace TreeWatch.Numeral

/-! ## Numerals -/

theorem isDigit_of_mem_write {n : UInt64} {c : Char} (h : c ∈ write n) : c.isDigit = true :=
  Nat.isDigit_of_mem_toDigits (by omega) (by omega) h

theorem write_ne_nil (n : UInt64) : write n ≠ [] :=
  Nat.toDigits_ne_nil

theorem le_ofDigitChars (digits : List Char) :
    ∀ value : Nat, value ≤ Nat.ofDigitChars 10 digits value := by
  induction digits with
  | nil => exact fun _ => Nat.le_refl _
  | cons c rest ih =>
    intro value
    have hNext := ih (10 * value + (c.toNat - '0'.toNat))
    rw [Nat.ofDigitChars_cons]
    omega

/-- Digits are read as their value, as long as it is in range. -/
theorem readDigits_eq (digits : List Char) :
    ∀ {value : Nat}, (∀ c ∈ digits, c.isDigit = true) →
      Nat.ofDigitChars 10 digits value < UInt64.size →
      readDigits value digits = .ok (UInt64.ofNat (Nat.ofDigitChars 10 digits value)) := by
  induction digits with
  | nil => exact fun _ _ => rfl
  | cons c rest ih =>
    intro value hDigits hRange
    have hNext : value * 10 + (c.toNat - '0'.toNat) = 10 * value + (c.toNat - '0'.toNat) := by
      omega
    rw [Nat.ofDigitChars_cons] at hRange ⊢
    -- the value grows with every digit, so it is in range all the way
    have hHere := le_ofDigitChars rest (10 * value + (c.toNat - '0'.toNat))
    rw [readDigits, if_pos (hDigits c (List.mem_cons_self ..))]
    dsimp only
    rw [hNext, if_pos (Nat.lt_of_le_of_lt hHere hRange)]
    exact ih (fun d hd => hDigits d (List.mem_cons_of_mem _ hd)) hRange

/-- A numeral does not start with a sign. -/
theorem read_of_digits {digits : List Char} (hDigits : ∀ c ∈ digits, c.isDigit = true)
    (hSome : digits ≠ []) : read digits = readDigits 0 digits := by
  cases digits with
  | nil => exact absurd rfl hSome
  | cons c rest =>
    have hSign : c ≠ '+' := by
      rintro rfl
      have hDigit := hDigits '+' (List.mem_cons_self ..)
      cases hDigit
    unfold read
    split
    · cases ‹_ = []›
    · rename_i hEq
      exact absurd (List.cons.inj hEq).1 hSign
    · rename_i hEq
      exact absurd (List.cons.inj hEq).1 hSign
    · rfl

/-- **Numbers come back.** -/
theorem read_write (n : UInt64) : read (write n) = .ok n := by
  have hDigits : ∀ c ∈ write n, c.isDigit = true := fun _ hc => isDigit_of_mem_write hc
  have hValue : Nat.ofDigitChars 10 (write n) 0 = n.toNat :=
    Nat.ofDigitChars_toDigits (by omega) (by omega)
  rw [read_of_digits hDigits (write_ne_nil n), readDigits_eq (write n) hDigits, hValue]
  · simp
  · rw [hValue]
    exact n.toNat_lt

end TreeWatch.Numeral
