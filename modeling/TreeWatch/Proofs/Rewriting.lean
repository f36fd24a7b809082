import TreeWatch.Counter.File
import TreeWatch.Proofs.Texts

/-!
# Counter files after they were rewritten

A bump reads a counter file, changes the version and writes all lines back. The next bump reads
what was written. Written lines are read with the meaning they had (`Legible`), so the version and
everything besides it come back, with one exception: a text that starts with two byte-order marks.
The first one is dropped on reading and not written again, so the second one is dropped the next
time, and what stands behind it changes its meaning.

Main results:
  * `parse_render`: a file of legible lines comes back
  * `setVersion_spec`: what a new version changes
  * `rewritten_counter_comes_back`: a rewritten file is read with the new version and otherwise as
    it was
-/

namespace TreeWatch

/-! ## What lines say -/

/-- What lines say, blank lines and comments left out. -/
def meanings (lines : List CounterLine) : List LineKind :=
  (lines.map CounterLine.kind).filter (· ≠ .other)

/-- What lines say besides the version: all meanings but that of the first version entry. `inside`
says whether the lines start within its section. -/
def besidesVersion (inside : Bool) : List CounterLine → List LineKind
  | [] => []
  | line :: rest =>
    match line.kind with
    | .header name => .header name :: besidesVersion (opensSection name) rest
    | .entry key value =>
      if inside && isVersionKey key then meanings rest
      else .entry key value :: besidesVersion inside rest
    | .other => besidesVersion inside rest

/-- A line that is read with the meaning it has, once it is written. -/
structure CounterLine.Legible (line : CounterLine) : Prop where
  meant : LineKind.ofTrimmed (Text.trim line.raw) = .ok line.kind
  unbroken : '\n' ∉ line.raw

/-- The line as it is read after it was written. -/
def CounterLine.reread (line : CounterLine) : CounterLine :=
  { line with raw := Text.dropReturn line.raw }

/-- The lines do not start with a byte-order mark. -/
def Unmarked (lines : List CounterLine) : Prop :=
  ∀ line, lines.head? = some line → line.raw.head? ≠ some '\uFEFF'

variable {lines after : List CounterLine} {n : UInt64} {inside : Bool} {key : List Char}

/-! ## Reading -/

theorem meanings_cons (line : CounterLine) (rest : List CounterLine) :
    meanings (line :: rest) = if line.kind = .other then meanings rest else
      line.kind :: meanings rest := by
  unfold meanings
  rw [List.map_cons, List.filter_cons]
  by_cases hOther : line.kind = .other
  · simp [hOther]
  · simp [hOther]

/-- Reading keeps every line as it stands, and its meaning is that of its text. -/
theorem ofRaws_spec (raws : List (List Char)) :
    ∀ {number : Nat} {lines : List CounterLine}, CounterLine.ofRaws number raws = .ok lines →
      lines.map CounterLine.raw = raws ∧
        ∀ line ∈ lines, LineKind.ofTrimmed (Text.trim line.raw) = .ok line.kind := by
  induction raws with
  | nil =>
    intro number lines h
    cases h
    simp
  | cons raw raws ih =>
    intro number lines h
    unfold CounterLine.ofRaws CounterLine.ofRaw at h
    cases hKind : LineKind.ofTrimmed (Text.trim raw) with
    | error fault =>
      rw [hKind] at h
      cases h
    | ok kind =>
      rw [hKind] at h
      cases hRest : CounterLine.ofRaws (number + 1) raws with
      | error fault =>
        rw [hRest] at h
        cases h
      | ok rest =>
        rw [hRest] at h
        cases h
        obtain ⟨hRaws, hMeant⟩ := ih hRest
        refine ⟨by simp [hRaws], ?_⟩
        intro line hLine
        rcases List.mem_cons.mp hLine with rfl | hLater
        · exact hKind
        · exact hMeant line hLater

/-- Lines that were written are read with the meaning they had. -/
theorem ofRaws_reread (hLegible : ∀ line ∈ lines, line.Legible) :
    ∀ number : Nat, CounterLine.ofRaws number (lines.map fun line => Text.dropReturn line.raw) =
      .ok (lines.map CounterLine.reread) := by
  induction lines with
  | nil => exact fun _ => rfl
  | cons line rest ih =>
    intro number
    have hRest := ih (fun other hOther => hLegible other (List.mem_cons_of_mem _ hOther))
      (number + 1)
    have hMeant := (hLegible line (List.mem_cons_self ..)).meant
    -- the carriage return that is gone was a blank
    rw [← Text.trim_dropReturn] at hMeant
    rw [List.map_cons, CounterLine.ofRaws, CounterLine.ofRaw, hMeant, hRest]
    rfl

/-- Nothing is dropped at the start of what is written. -/
theorem dropMark_unlines (h : Unmarked lines) :
    dropMark (Text.unlines (lines.map CounterLine.raw)) =
      Text.unlines (lines.map CounterLine.raw) := by
  cases lines with
  | nil => rfl
  | cons line rest =>
    have hFirst := h line rfl
    rw [List.map_cons, Text.unlines, List.flatMap_cons]
    cases hRaw : line.raw with
    | nil => rfl
    | cons c raw =>
      rw [hRaw, List.head?_cons] at hFirst
      unfold dropMark
      split
      · rename_i hMark
        exact absurd (congrArg some (List.cons.inj hMark).1) hFirst
      · rfl

/-- **A file of legible lines comes back**, up to carriage returns at the ends of lines. -/
theorem parse_render {f : CounterFile} (hLegible : ∀ line ∈ f.lines, line.Legible)
    (hStart : Unmarked f.lines) :
    CounterFile.parse f.render = .ok ⟨f.lines.map CounterLine.reread⟩ := by
  have hUnbroken : ∀ raw ∈ f.lines.map CounterLine.raw, '\n' ∉ raw := by
    intro raw hRaw
    obtain ⟨line, hLine, rfl⟩ := List.mem_map.mp hRaw
    exact (hLegible line hLine).unbroken
  unfold CounterFile.parse CounterFile.render
  rw [String.toList_ofList, dropMark_unlines hStart, Text.lines_unlines hUnbroken, List.map_map]
  have hRead := ofRaws_reread hLegible 1
  unfold Function.comp
  rw [hRead]
  rfl

/-- What was read is legible. -/
theorem legible_of_parse {text : String} {f : CounterFile} (h : CounterFile.parse text = .ok f) :
    ∀ line ∈ f.lines, line.Legible := by
  unfold CounterFile.parse at h
  cases hLines : CounterLine.ofRaws 1 (Text.lines (dropMark text.toList)) with
  | error fault =>
    rw [hLines] at h
    cases h
  | ok lines =>
    rw [hLines] at h
    cases h
    obtain ⟨hRaws, hMeant⟩ := ofRaws_spec _ hLines
    intro line hLine
    have hRaw : line.raw ∈ Text.lines (dropMark text.toList) :=
      hRaws ▸ List.mem_map_of_mem hLine
    exact ⟨hMeant line hLine, Text.not_mem_lines hRaw⟩

/-- Behind one byte-order mark the text starts with another one only if it started with two. -/
theorem head?_dropMark {s : List Char} (h : ¬ ['\uFEFF', '\uFEFF'] <+: s) :
    (dropMark s).head? ≠ some '\uFEFF' := by
  unfold dropMark
  split
  · rename_i rest
    intro hHead
    obtain ⟨rest, rfl⟩ := List.head?_eq_some_iff.mp hHead
    exact h ⟨rest, rfl⟩
  · rename_i hNone
    intro hHead
    obtain ⟨rest, rfl⟩ := List.head?_eq_some_iff.mp hHead
    exact hNone rest rfl

/-- What was read starts with a byte-order mark only if the text started with two. -/
theorem unmarked_of_parse {text : String} {f : CounterFile} (h : CounterFile.parse text = .ok f)
    (hMarks : ¬ ['\uFEFF', '\uFEFF'] <+: text.toList) : Unmarked f.lines := by
  unfold CounterFile.parse at h
  cases hLines : CounterLine.ofRaws 1 (Text.lines (dropMark text.toList)) with
  | error fault =>
    rw [hLines] at h
    cases h
  | ok lines =>
    rw [hLines] at h
    cases h
    intro line hFirst hMark
    obtain ⟨rest, rfl⟩ := List.head?_eq_some_iff.mp hFirst
    have hRaws := (ofRaws_spec _ hLines).1
    rw [List.map_cons] at hRaws
    -- the first line starts as the text does
    exact head?_dropMark hMarks (Text.head?_lines hRaws.symm hMark)

/-! ## Rereading does not matter to what lines say -/

theorem meanings_reread (lines : List CounterLine) :
    meanings (lines.map CounterLine.reread) = meanings lines := by
  unfold meanings
  rw [List.map_map]
  rfl

theorem besidesVersion_reread (lines : List CounterLine) :
    ∀ inside, besidesVersion inside (lines.map CounterLine.reread) =
      besidesVersion inside lines := by
  induction lines with
  | nil => exact fun _ => rfl
  | cons line rest ih =>
    intro inside
    have hKind : line.reread.kind = line.kind := rfl
    rw [List.map_cons, besidesVersion, besidesVersion, hKind]
    cases line.kind with
    | header name => exact congrArg _ (ih _)
    | entry key value =>
      dsimp only
      rw [meanings_reread, ih]
    | other => exact ih inside

theorem versionText?_reread (lines : List CounterLine) :
    ∀ inside, versionText? inside (lines.map CounterLine.reread) = versionText? inside lines := by
  induction lines with
  | nil => exact fun _ => rfl
  | cons line rest ih =>
    intro inside
    have hKind : line.reread.kind = line.kind := rfl
    rw [List.map_cons, versionText?, versionText?, hKind]
    cases line.kind with
    | header name => exact ih _
    | entry key value =>
      dsimp only
      rw [ih]
    | other => exact ih inside

/-! ## Lines that are added -/

/-- A version key consists of letters. -/
theorem letter_of_mem_versionKey (h : isVersionKey key = true) {c : Char} (hMem : c ∈ key) :
    65 ≤ c.toNat ∧ c.toNat ≤ 90 ∨ 97 ≤ c.toNat ∧ c.toNat ≤ 122 := by
  unfold isVersionKey sameIgnoringCase at h
  have hLower : c.toLower ∈ counterKey.toList.map Char.toLower := by
    rw [← eq_of_beq h]
    exact List.mem_map_of_mem hMem
  by_cases hUpper : 65 ≤ c.toNat ∧ c.toNat ≤ 90
  · exact Or.inl hUpper
  · have hSame : c.toLower = c := by
      have hRange : ¬ (c.val ≥ 65 ∧ c.val ≤ 90) := by
        simpa [UInt32.le_iff_toNat_le] using hUpper
      unfold Char.toLower
      exact dif_neg hRange
    rw [hSame] at hLower
    have hLetters : (counterKey.toList.map Char.toLower).all
        (fun d => decide (97 ≤ d.toNat ∧ d.toNat ≤ 122)) = true := rfl
    exact Or.inr (of_decide_eq_true (List.all_eq_true.mp hLetters c hLower))

theorem ne_of_mem_versionKey (h : isVersionKey key = true) {c d : Char} (hMem : c ∈ key)
    (hNot : ¬ (65 ≤ d.toNat ∧ d.toNat ≤ 90 ∨ 97 ≤ d.toNat ∧ d.toNat ≤ 122)) : c ≠ d := by
  rintro rfl
  exact hNot (letter_of_mem_versionKey h hMem)

theorem isBlank_of_mem_versionKey (h : isVersionKey key = true) {c : Char} (hMem : c ∈ key) :
    Text.isBlank c = false := by
  have hLetter := letter_of_mem_versionKey h hMem
  simp only [Text.isBlank, Bool.or_eq_false_iff, Bool.and_eq_false_iff, decide_eq_false_iff_not,
    beq_eq_false_iff_ne]
  omega

/-- A version entry is read as what it was written for. -/
theorem legible_versionLine (h : isVersionKey key = true) (n : UInt64) :
    (versionLine key n).Legible := by
  obtain ⟨c, rest, rfl⟩ : ∃ c rest, key = c :: rest := by
    cases key with
    | nil => cases h
    | cons c rest => exact ⟨c, rest, rfl⟩
  have hKeyBlank : ∀ d ∈ c :: rest, Text.isBlank d = false :=
    fun d hd => isBlank_of_mem_versionKey h hd
  have hDigitBlank : ∀ d ∈ Numeral.write n, Text.isBlank d = false :=
    fun d hd => Text.isBlank_of_isDigit (Numeral.isDigit_of_mem_write hd)
  have hBlank : ∀ d ∈ c :: rest ++ '=' :: Numeral.write n, Text.isBlank d = false := by
    intro d hd
    rcases List.mem_append.mp hd with hKey | hValue
    · exact hKeyBlank d hKey
    · rcases List.mem_cons.mp hValue with rfl | hDigit
      · rfl
      · exact hDigitBlank d hDigit
  -- the text is cut at the first equals sign, and there is none in the key
  have hEquals : ∀ d ∈ c :: rest, decide (d ≠ '=') = true :=
    fun d hd => by simpa using ne_of_mem_versionKey h hd (by decide)
  have hKey : (c :: rest ++ '=' :: Numeral.write n).takeWhile (· ≠ '=') = c :: rest := by
    rw [List.takeWhile_append_of_pos hEquals]
    simp
  have hValue : (c :: rest ++ '=' :: Numeral.write n).dropWhile (· ≠ '=') =
      '=' :: Numeral.write n := by
    rw [List.dropWhile_append_of_pos hEquals]
    simp
  have hFirst : ∀ d, ¬ (65 ≤ d.toNat ∧ d.toNat ≤ 90 ∨ 97 ≤ d.toNat ∧ d.toNat ≤ 122) → c ≠ d :=
    fun d hd => ne_of_mem_versionKey h (List.mem_cons_self ..) hd
  have hPlain : bracketed? (c :: rest ++ '=' :: Numeral.write n) = none := by
    unfold bracketed?
    split
    · rename_i hBracket
      exact absurd (List.cons.inj hBracket).1 (hFirst '[' (by decide))
    · rfl
  constructor
  · show LineKind.ofTrimmed (Text.trim (c :: rest ++ '=' :: Numeral.write n)) = _
    rw [Text.trim_of_no_blanks hBlank, LineKind.ofTrimmed, if_neg, hPlain]
    · dsimp only
      rw [if_pos (by simp), hKey, hValue, Text.trim_of_no_blanks hKeyBlank, if_neg (by simp)]
      show Except.ok (LineKind.entry _ (Text.trim (Numeral.write n))) = _
      rw [Text.trim_of_no_blanks hDigitBlank]
      rfl
    · simp [hFirst ';' (by decide), hFirst '#' (by decide)]
  · show '\n' ∉ c :: rest ++ '=' :: Numeral.write n
    intro hBreak
    have hNot := hBlank '\n' hBreak
    cases hNot

theorem legible_sectionLine : sectionLine.Legible :=
  ⟨by decide, by decide⟩

theorem isVersionKey_counterKey : isVersionKey counterKey.toList = true :=
  rfl

/-! ## The three ways to set a version -/

/-- What setting a version comes to: the version is read back, everything besides it stays, but for
what is added at the end, and lines can be read as well as before. -/
structure VersionSet (n : UInt64) (inside : Bool) (lines after : List CounterLine)
    (added : List LineKind) : Prop where
  version : versionText? inside after = some (Numeral.write n)
  besides : besidesVersion inside after = besidesVersion inside lines ++ added
  legible : (∀ line ∈ lines, line.Legible) → ∀ line ∈ after, line.Legible
  unmarked : Unmarked lines → Unmarked after

/-- A line that is no version entry keeps its place. -/
theorem VersionSet.cons {line : CounterLine} {within : Bool} {added : List LineKind}
    (h : VersionSet n within lines after added)
    (hText : ∀ rest, versionText? inside (line :: rest) = versionText? within rest)
    (hBesides : ∃ said, ∀ rest,
      besidesVersion inside (line :: rest) = said ++ besidesVersion within rest) :
    VersionSet n inside (line :: lines) (line :: after) added where
  version := (hText after).trans h.version
  besides := by
    obtain ⟨said, hSaid⟩ := hBesides
    rw [hSaid, hSaid, h.besides, List.append_assoc]
  legible hAll other hOther := by
    rcases List.mem_cons.mp hOther with rfl | hRest
    · exact hAll _ (List.mem_cons_self ..)
    · exact h.legible (fun third hThird => hAll third (List.mem_cons_of_mem _ hThird)) other hRest
  unmarked hStart first hFirst := hStart first hFirst

theorem VersionSet.cons_header {line : CounterLine} {name : List Char} {added : List LineKind}
    (hKind : line.kind = .header name)
    (h : VersionSet n (opensSection name) lines after added) :
    VersionSet n inside (line :: lines) (line :: after) added :=
  h.cons (fun _ => by rw [versionText?, hKind])
    ⟨[.header name], fun _ => by rw [besidesVersion, hKind]; rfl⟩

theorem VersionSet.cons_other {line : CounterLine} {added : List LineKind}
    (hKind : line.kind = .other) (h : VersionSet n inside lines after added) :
    VersionSet n inside (line :: lines) (line :: after) added :=
  h.cons (fun _ => by rw [versionText?, hKind]) ⟨[], fun _ => by rw [besidesVersion, hKind]; rfl⟩

theorem VersionSet.cons_entry {line : CounterLine} {value : List Char} {added : List LineKind}
    (hKind : line.kind = .entry key value) (hNot : (inside && isVersionKey key) ≠ true)
    (h : VersionSet n inside lines after added) :
    VersionSet n inside (line :: lines) (line :: after) added :=
  h.cons (fun _ => by rw [versionText?, hKind]; exact if_neg hNot)
    ⟨[.entry key value], fun _ => by rw [besidesVersion, hKind]; exact if_neg hNot⟩

theorem unmarked_versionLine (hKey : isVersionKey key = true) (rest : List CounterLine) :
    Unmarked (versionLine key n :: rest) := by
  intro first hFirst hMark
  cases hFirst
  cases key with
  | nil => cases hKey
  | cons c key =>
    have hLetter : c ≠ '\uFEFF' :=
      ne_of_mem_versionKey hKey (List.mem_cons_self ..) (by decide)
    exact hLetter (Option.some.inj hMark)

/-- A version entry that is there is rewritten. -/
theorem rewriteVersion?_some (lines : List CounterLine) :
    ∀ {inside : Bool} {after : List CounterLine}, rewriteVersion? n inside lines = some after →
      VersionSet n inside lines after [] := by
  induction lines with
  | nil =>
    intro inside after h
    cases h
  | cons line rest ih =>
    intro inside after h
    unfold rewriteVersion? at h
    cases hKind : line.kind with
    | header name =>
      rw [hKind] at h
      obtain ⟨later, hLater, rfl⟩ := Option.map_eq_some_iff.mp h
      exact (ih hLater).cons_header hKind
    | other =>
      rw [hKind] at h
      obtain ⟨later, hLater, rfl⟩ := Option.map_eq_some_iff.mp h
      exact (ih hLater).cons_other hKind
    | entry key value =>
      rw [hKind] at h
      dsimp only at h
      by_cases hHere : (inside && isVersionKey key) = true
      · rw [if_pos hHere, Option.some.injEq] at h
        subst h
        have hKey : isVersionKey key = true := (Bool.and_eq_true_iff.mp hHere).2
        refine ⟨?_, ?_, ?_, fun _ => unmarked_versionLine hKey rest⟩
        · rw [versionText?, versionLine]
          exact if_pos hHere
        · rw [besidesVersion, besidesVersion, hKind, versionLine, List.append_nil]
          dsimp only
          rw [if_pos hHere, if_pos hHere]
        · intro hAll other hOther
          rcases List.mem_cons.mp hOther with rfl | hRest
          · exact legible_versionLine hKey n
          · exact hAll other (List.mem_cons_of_mem _ hRest)
      · rw [if_neg hHere] at h
        obtain ⟨later, hLater, rfl⟩ := Option.map_eq_some_iff.mp h
        exact (ih hLater).cons_entry hKind hHere

/-- Otherwise there is none, and everything is said besides it. -/
theorem rewriteVersion?_none (lines : List CounterLine) :
    ∀ {inside : Bool}, rewriteVersion? n inside lines = none →
      versionText? inside lines = none ∧ besidesVersion inside lines = meanings lines := by
  induction lines with
  | nil => exact fun _ => ⟨rfl, rfl⟩
  | cons line rest ih =>
    intro inside h
    unfold rewriteVersion? at h
    rw [versionText?, besidesVersion, meanings_cons]
    cases hKind : line.kind with
    | header name =>
      rw [hKind] at h
      obtain ⟨hText, hBesides⟩ := ih (Option.map_eq_none_iff.mp h)
      exact ⟨hText, congrArg _ hBesides⟩
    | other =>
      rw [hKind] at h
      exact ih (Option.map_eq_none_iff.mp h)
    | entry key value =>
      rw [hKind] at h
      dsimp only at h ⊢
      by_cases hHere : (inside && isVersionKey key) = true
      · rw [if_pos hHere] at h
        cases h
      · rw [if_neg hHere] at h ⊢
        rw [if_neg hHere]
        obtain ⟨hText, hBesides⟩ := ih (Option.map_eq_none_iff.mp h)
        exact ⟨hText, congrArg _ hBesides⟩

/-- Without a version entry, one is put below the first header of its section. -/
theorem insertVersion?_some (lines : List CounterLine) :
    ∀ {inside : Bool} {after : List CounterLine}, rewriteVersion? n inside lines = none →
      insertVersion? n lines = some after → VersionSet n inside lines after [] := by
  induction lines with
  | nil =>
    intro inside after _ h
    cases h
  | cons line rest ih =>
    intro inside after hNone h
    unfold insertVersion? at h
    unfold rewriteVersion? at hNone
    cases hKind : line.kind with
    | header name =>
      rw [hKind] at h hNone
      have hRest := Option.map_eq_none_iff.mp hNone
      dsimp only at h
      by_cases hOpens : opensSection name = true
      · rw [if_pos hOpens, Option.some.injEq] at h
        subst h
        -- the entry is the first line inside the section
        have hHere : VersionSet n (opensSection name) rest
            (versionLine counterKey.toList n :: rest) [] := by
          refine ⟨?_, ?_, ?_, fun _ => unmarked_versionLine isVersionKey_counterKey rest⟩
          · rw [versionText?, hOpens]
            rfl
          · rw [(rewriteVersion?_none rest hRest).2, besidesVersion, hOpens, List.append_nil]
            rfl
          · intro hAll other hOther
            rcases List.mem_cons.mp hOther with rfl | hLater
            · exact legible_versionLine isVersionKey_counterKey n
            · exact hAll other hLater
        exact hHere.cons_header hKind
      · rw [if_neg hOpens] at h
        obtain ⟨later, hLater, rfl⟩ := Option.map_eq_some_iff.mp h
        exact (ih hRest hLater).cons_header hKind
    | other =>
      rw [hKind] at h hNone
      obtain ⟨later, hLater, rfl⟩ := Option.map_eq_some_iff.mp h
      exact (ih (Option.map_eq_none_iff.mp hNone) hLater).cons_other hKind
    | entry key value =>
      rw [hKind] at h hNone
      dsimp only at hNone
      obtain ⟨later, hLater, rfl⟩ := Option.map_eq_some_iff.mp h
      by_cases hHere : (inside && isVersionKey key) = true
      · rw [if_pos hHere] at hNone
        cases hNone
      · rw [if_neg hHere] at hNone
        exact (ih (Option.map_eq_none_iff.mp hNone) hLater).cons_entry hKind hHere

/-- Without a section for it, the section is added at the end, and the entry with it. -/
theorem versionSet_concat (lines : List CounterLine) :
    ∀ {inside : Bool}, rewriteVersion? n inside lines = none →
      VersionSet n inside lines (lines ++ [sectionLine, versionLine counterKey.toList n])
        [.header counterSection.toList] := by
  induction lines with
  | nil =>
    intro inside _
    refine ⟨rfl, rfl, ?_, ?_⟩
    · intro _ line hLine
      simp only [List.nil_append, List.mem_cons, List.not_mem_nil, or_false] at hLine
      rcases hLine with rfl | rfl
      · exact legible_sectionLine
      · exact legible_versionLine isVersionKey_counterKey n
    · intro _ first hFirst
      cases hFirst
      decide
  | cons line rest ih =>
    intro inside hNone
    unfold rewriteVersion? at hNone
    cases hKind : line.kind with
    | header name =>
      rw [hKind] at hNone
      exact (ih (Option.map_eq_none_iff.mp hNone)).cons_header hKind
    | other =>
      rw [hKind] at hNone
      exact (ih (Option.map_eq_none_iff.mp hNone)).cons_other hKind
    | entry key value =>
      rw [hKind] at hNone
      dsimp only at hNone
      by_cases hHere : (inside && isVersionKey key) = true
      · rw [if_pos hHere] at hNone
        cases hNone
      · rw [if_neg hHere] at hNone
        exact (ih (Option.map_eq_none_iff.mp hNone)).cons_entry hKind hHere

theorem insertVersion?_none (lines : List CounterLine) (h : insertVersion? n lines = none) :
    ∀ line ∈ lines, ∀ name, line.kind = .header name → opensSection name = false := by
  induction lines with
  | nil => simp
  | cons line rest ih =>
    unfold insertVersion? at h
    have hRest : insertVersion? n rest = none := by
      split at h
      · split at h
        · cases h
        · exact Option.map_eq_none_iff.mp h
      · exact Option.map_eq_none_iff.mp h
    intro other hOther name hKind
    rcases List.mem_cons.mp hOther with rfl | hLater
    · rw [hKind] at h
      dsimp only at h
      by_contra hOpens
      rw [if_pos (by simpa using hOpens)] at h
      cases h
    · exact ih hRest other hLater name hKind

/-- **Setting the version**: the header of its section is added if it is not there. -/
theorem setVersion_spec (f : CounterFile) (n : UInt64) :
    ∃ added, VersionSet n false f.lines (f.setVersion n).lines added ∧
      (added = [] ∨ added = [.header counterSection.toList] ∧
        ∀ line ∈ f.lines, ∀ name, line.kind = .header name → opensSection name = false) := by
  unfold CounterFile.setVersion
  cases hRewritten : rewriteVersion? n false f.lines with
  | some after => exact ⟨[], rewriteVersion?_some _ hRewritten, Or.inl rfl⟩
  | none =>
    cases hInserted : insertVersion? n f.lines with
    | some after => exact ⟨[], insertVersion?_some _ hRewritten hInserted, Or.inl rfl⟩
    | none =>
      exact ⟨_, versionSet_concat _ hRewritten, Or.inr ⟨rfl, insertVersion?_none _ hInserted⟩⟩

/-! ## Main result -/

/--
**A rewritten counter file comes back.** Whatever the text of a counter file, as long as it does
not start with two byte-order marks, and whatever version it is given: the text written for it is
accepted, holds that version, and says besides the version what it said before, in the same order.
A header for the section of the version is added at the end if there was none, and nothing else.
-/
theorem rewritten_counter_comes_back {text : String} {f : CounterFile} (n : UInt64)
    (hRead : CounterFile.parse text = .ok f)
    (hMarks : ¬ ['\uFEFF', '\uFEFF'] <+: text.toList) :
    ∃ g, CounterFile.parse (f.setVersion n).render = .ok g ∧ g.version = .ok n ∧
      (besidesVersion false g.lines = besidesVersion false f.lines ∨
        besidesVersion false g.lines =
            besidesVersion false f.lines ++ [.header counterSection.toList] ∧
          ∀ line ∈ f.lines, ∀ name, line.kind = .header name → opensSection name = false) := by
  obtain ⟨added, hSet, hAdded⟩ := setVersion_spec f n
  have hWritten := parse_render (hSet.legible (legible_of_parse hRead))
    (hSet.unmarked (unmarked_of_parse hRead hMarks))
  refine ⟨_, hWritten, ?_, ?_⟩
  · rw [CounterFile.version, versionText?_reread, hSet.version]
    dsimp only
    rw [Numeral.read_write]
    rfl
  · rw [besidesVersion_reread, hSet.besides]
    rcases hAdded with rfl | ⟨rfl, hNone⟩
    · exact Or.inl (List.append_nil _)
    · exact Or.inr ⟨rfl, hNone⟩

/-- A file with a carriage return too many, a key outside of any section and a version that is
spelled in capitals. -/
theorem rewritten_sample_comes_back :
    ∃ f, CounterFile.parse "\uFEFFa=1\r\r\n[GENERAL]\nVERSION=+7" = .ok f ∧
      ∃ g, CounterFile.parse (f.setVersion 8).render = .ok g ∧ g.version = .ok 8 := by
  have hRead : CounterFile.parse "\uFEFFa=1\r\r\n[GENERAL]\nVERSION=+7" = .ok
      ⟨[⟨['a', '=', '1', '\r'], .entry ['a'] ['1']⟩,
        ⟨"[GENERAL]".toList, .header "GENERAL".toList⟩,
        ⟨"VERSION=+7".toList, .entry "VERSION".toList ['+', '7']⟩]⟩ := by
    decide
  obtain ⟨g, hAgain, hVersion, -⟩ := rewritten_counter_comes_back 8 hRead (by decide)
  exact ⟨_, hRead, g, hAgain, hVersion⟩

/-- Behind two byte-order marks it does not: the second one makes a key of what stands between it
and the equals sign, it is dropped when the file is read again, and then the entry has no key. -/
theorem doubly_marked_counter_is_lost :
    ∃ f, CounterFile.parse "\uFEFF\uFEFF=1\n[General]\nVersion=4\n" = .ok f ∧ f.version = .ok 4 ∧
      (f.setVersion 5).render = "\uFEFF=1\n[General]\nVersion=5\n" ∧
      CounterFile.parse (f.setVersion 5).render = .error ⟨1, .emptyKey⟩ :=
  ⟨⟨[⟨['\uFEFF', '=', '1'], .entry ['\uFEFF'] ['1']⟩,
    ⟨"[General]".toList, .header "General".toList⟩,
    ⟨"Version=4".toList, .entry "Version".toList ['4']⟩]⟩, by decide, by decide, by decide,
    by decide⟩

end TreeWatch
