import TreeWatch.Proofs.VersionEntries

/-!
# Which counter files come back as they were

A text is read with two losses: a byte-order mark at its start and a carriage return before each
line feed are gone. Writing puts neither of them back. So a file is read as it was exactly if its
lines have nothing of the kind to lose (`CounterFile.Plain`), and the text tells just as much as the
lines do: it is written again as it was for the same files and no others. Carriage returns are
blanks, so losing them changes no meaning; a mark is none, and losing it may.

Main results:
  * `raws_of_reread`: the lines that are read from what was written
  * `plain_of_render_eq`: a text that is written again as it was lost nothing
  * `plain_files_come_back`: which files come back, and what comes back of the others
-/

namespace TreeWatch

/-- No line of the file ends in a carriage return, and the first does not start with a byte-order
mark. -/
structure CounterFile.Plain (f : CounterFile) : Prop where
  unreturned : ∀ line ∈ f.lines, line.raw.getLast? ≠ some '\r'
  unmarked : Unmarked f.lines

namespace Text

/-! ## What is lost of a line -/

theorem dropReturn_eq_self_iff {line : List Char} :
    dropReturn line = line ↔ line.getLast? ≠ some '\r' := by
  unfold dropReturn
  split
  · next hLast =>
    -- without its last character the line is shorter
    have hSome : line ≠ [] := by
      rintro rfl
      simp at hLast
    have hLength := List.length_pos_iff.mpr hSome
    refine ⟨fun hSame => ?_, fun hNot => absurd hLast hNot⟩
    have hShorter := congrArg List.length hSame
    rw [List.length_dropLast] at hShorter
    omega
  · next hElse => exact ⟨fun _ => hElse, fun _ => rfl⟩

theorem map_dropReturn_iff {ls : List (List Char)} :
    ls.map dropReturn = ls ↔ ∀ line ∈ ls, line.getLast? ≠ some '\r' := by
  have hMap : ls.map dropReturn = ls ↔ ∀ line ∈ ls, dropReturn line = line := by
    simpa using List.map_inj_left (f := dropReturn) (g := id) (l := ls)
  simp only [hMap, dropReturn_eq_self_iff]

theorem length_dropReturn_le (line : List Char) : (dropReturn line).length ≤ line.length := by
  unfold dropReturn
  split
  · rw [List.length_dropLast]
    omega
  · exact Nat.le_refl _

/-- Lines are known by their text. -/
theorem unlines_inj {ls others : List (List Char)} (h : ∀ line ∈ ls, '\n' ∉ line)
    (hOthers : ∀ line ∈ others, '\n' ∉ line) (hSame : unlines ls = unlines others) :
    ls = others := by
  have hPieces := congrArg (Pieces.split '\n') hSame
  rw [split_unlines h, split_unlines hOthers] at hPieces
  exact List.append_cancel_right hPieces

end Text

/-! ## What is read from what was written -/

variable {f g : CounterFile}

/-- The lines of a file that was read are those of the text behind its mark. -/
theorem raws_of_parse {text : String} (h : CounterFile.parse text = .ok f) :
    f.lines.map CounterLine.raw = Text.lines (dropMark text.toList) := by
  unfold CounterFile.parse at h
  cases hLines : CounterLine.ofRaws 1 (Text.lines (dropMark text.toList)) with
  | error fault =>
    rw [hLines] at h
    cases h
  | ok lines =>
    rw [hLines] at h
    cases h
    exact (ofRaws_spec _ hLines).1

/-- A file whose first line starts with a mark is written with that mark at the start. -/
theorem render_of_marked {line : CounterLine} {rest : List CounterLine} {raw : List Char}
    (hRaw : line.raw = '\uFEFF' :: raw) :
    dropMark (CounterFile.render ⟨line :: rest⟩).toList =
      Text.unlines (raw :: rest.map CounterLine.raw) := by
  unfold CounterFile.render
  rw [String.toList_ofList, List.map_cons, hRaw]
  rfl

/-- **What is read from what was written**: every line without the carriage return at its end, and
the first one without the mark at its start. -/
theorem raws_of_reread (hLegible : ∀ line ∈ f.lines, line.Legible)
    (hRead : CounterFile.parse f.render = .ok g) :
    (Unmarked f.lines ∧
        g.lines.map CounterLine.raw = (f.lines.map CounterLine.raw).map Text.dropReturn) ∨
      ∃ raw rest, f.lines.map CounterLine.raw = ('\uFEFF' :: raw) :: rest ∧
        g.lines.map CounterLine.raw = (raw :: rest).map Text.dropReturn := by
  obtain ⟨lines⟩ := f
  have hUnbroken : ∀ raw ∈ lines.map CounterLine.raw, '\n' ∉ raw := by
    intro raw hRaw
    obtain ⟨line, hLine, rfl⟩ := List.mem_map.mp hRaw
    exact (hLegible line hLine).unbroken
  rw [raws_of_parse hRead]
  by_cases hStart : Unmarked lines
  · refine Or.inl ⟨hStart, ?_⟩
    unfold CounterFile.render
    rw [String.toList_ofList, dropMark_unlines hStart, Text.lines_unlines hUnbroken]
  · -- there is a first line then, and a mark at its start
    obtain ⟨line, hFirst, hMark⟩ : ∃ line, lines.head? = some line ∧
        line.raw.head? = some '\uFEFF' := by
      simpa [Unmarked] using hStart
    obtain ⟨rest, rfl⟩ := List.head?_eq_some_iff.mp hFirst
    obtain ⟨raw, hRaw⟩ := List.head?_eq_some_iff.mp hMark
    rw [List.map_cons, hRaw] at hUnbroken
    refine Or.inr ⟨raw, rest.map CounterLine.raw, by rw [List.map_cons, hRaw], ?_⟩
    rw [render_of_marked hRaw, Text.lines_unlines]
    intro other hOther
    rcases List.mem_cons.mp hOther with rfl | hLater
    · exact fun hBreak => hUnbroken _ List.mem_cons_self (List.mem_cons_of_mem _ hBreak)
    · exact hUnbroken other (List.mem_cons_of_mem _ hLater)

/-- **A text that is written again** as it was lost nothing when it was read. -/
theorem plain_of_render_eq (hLegible : ∀ line ∈ f.lines, line.Legible)
    (hRead : CounterFile.parse f.render = .ok g) (hSame : g.render = f.render) : f.Plain := by
  have hUnbroken {h : CounterFile} (hAll : ∀ line ∈ h.lines, line.Legible) :
      ∀ raw ∈ h.lines.map CounterLine.raw, '\n' ∉ raw := by
    intro raw hRaw
    obtain ⟨line, hLine, rfl⟩ := List.mem_map.mp hRaw
    exact (hAll line hLine).unbroken
  -- the text determines the lines, so each line is the one that was written
  have hRaws : g.lines.map CounterLine.raw = f.lines.map CounterLine.raw :=
    Text.unlines_inj (hUnbroken (legible_of_parse hRead)) (hUnbroken hLegible)
      (String.ofList_injective hSame)
  rcases raws_of_reread hLegible hRead with ⟨hStart, hReread⟩ | ⟨raw, rest, hMarked, hReread⟩
  · rw [hRaws] at hReread
    refine ⟨fun line hLine => ?_, hStart⟩
    exact Text.map_dropReturn_iff.mp hReread.symm line.raw (List.mem_map_of_mem hLine)
  · -- with its mark the first line would be longer than what was read of it
    rw [hRaws, hMarked, List.map_cons] at hReread
    have hFirst := congrArg List.length (List.cons.inj hReread).1
    have hShort := Text.length_dropReturn_le raw
    rw [List.length_cons] at hFirst
    omega

/-! ## Files that come back -/

/-- A plain file is read as it was. -/
theorem CounterFile.Plain.parse_render (h : f.Plain) (hLegible : ∀ line ∈ f.lines, line.Legible) :
    CounterFile.parse f.render = .ok f := by
  have hReread : f.lines.map CounterLine.reread = f.lines := by
    rw [List.map_congr_left fun line hLine => ?_, List.map_id]
    show CounterLine.mk (Text.dropReturn line.raw) line.kind = line
    rw [Text.dropReturn_eq_self_iff.mpr (h.unreturned line hLine)]
  rw [TreeWatch.parse_render hLegible h.unmarked, hReread]

/-- Unless there is a mark at the start, what a file says is read as it was. -/
theorem exists_reread (hStart : Unmarked f.lines) (hLegible : ∀ line ∈ f.lines, line.Legible) :
    ∃ g, CounterFile.parse f.render = .ok g ∧
      g.lines.map CounterLine.kind = f.lines.map CounterLine.kind ∧ g.version = f.version := by
  refine ⟨_, parse_render hLegible hStart, List.map_map, ?_⟩
  unfold CounterFile.version
  rw [versionText?_reread]

/-! ## Main result -/

/--
**Which files come back.** Take a file that was read, or a new one, after its version was set any
number of times.
* The text that is written for it is read as the same file, line for line with text and meaning,
  exactly if no line ends in a carriage return and the first does not start with a byte-order mark.
* For the same files, and no others, what is read is written as the same text again.
* If only the first line does not start with a byte-order mark, the text is accepted, and what is
  read has the same headers, the same entries with the same keys and values, in the same order, and
  the same version.
-/
theorem plain_files_come_back (h : f.Derived) :
    (CounterFile.parse f.render = .ok f ↔ f.Plain) ∧
      ((∃ g, CounterFile.parse f.render = .ok g ∧ g.render = f.render) ↔ f.Plain) ∧
      (Unmarked f.lines → ∃ g, CounterFile.parse f.render = .ok g ∧
        g.lines.map CounterLine.kind = f.lines.map CounterLine.kind ∧ g.version = f.version) := by
  have hLegible := h.legible
  refine ⟨⟨fun hRead => ?_, fun hPlain => ?_⟩, ⟨?_, fun hPlain => ?_⟩, fun hStart => ?_⟩
  · exact plain_of_render_eq hLegible hRead rfl
  · exact hPlain.parse_render hLegible
  · rintro ⟨g, hRead, hSame⟩
    exact plain_of_render_eq hLegible hRead hSame
  · exact ⟨f, hPlain.parse_render hLegible, rfl⟩
  · exact exists_reread hStart hLegible

/-- A header that ends in a carriage return, with the version set below it. -/
def returnedFile : CounterFile :=
  CounterFile.setVersion ⟨[⟨"[General]\r".toList, .header "General".toList⟩,
    ⟨"VERSION = 7".toList, .entry "VERSION".toList ['7']⟩]⟩ 8

/-- Its carriage return is lost, and nothing else. -/
theorem returned_file_loses_return :
    returnedFile.Derived ∧ CounterFile.parse returnedFile.render ≠ .ok returnedFile ∧
      (∀ g, CounterFile.parse returnedFile.render = .ok g → g.render ≠ returnedFile.render) ∧
      ∃ g, CounterFile.parse returnedFile.render = .ok g ∧
        g.lines.map CounterLine.kind =
          [.header "General".toList, .entry "VERSION".toList ['8']] ∧ g.version = .ok 8 := by
  have hRead : CounterFile.parse "[General]\r\r\nVERSION = 7" = .ok
      ⟨[⟨"[General]\r".toList, .header "General".toList⟩,
        ⟨"VERSION = 7".toList, .entry "VERSION".toList ['7']⟩]⟩ := by
    decide +kernel
  have hDerived : returnedFile.Derived := .set (.read hRead) 8
  have hLines : returnedFile.lines = [⟨"[General]\r".toList, .header "General".toList⟩,
      ⟨"VERSION=8".toList, .entry "VERSION".toList ['8']⟩] := by decide +kernel
  have hReturned : ¬ returnedFile.Plain := by
    intro hPlain
    exact hPlain.unreturned ⟨"[General]\r".toList, .header "General".toList⟩
      (by rw [hLines]; exact List.mem_cons_self) (by decide)
  have hStart : Unmarked returnedFile.lines := by
    rw [hLines]
    intro line hFirst
    cases hFirst
    decide
  obtain ⟨hSame, hAgain, hMeant⟩ := plain_files_come_back hDerived
  obtain ⟨g, hReread, hKinds, hVersion⟩ := hMeant hStart
  refine ⟨hDerived, fun hOk => hReturned (hSame.mp hOk),
    fun g hOk hText => hReturned (hAgain.mp ⟨g, hOk, hText⟩), g, hReread, ?_, ?_⟩
  · rw [hKinds, hLines]
    rfl
  · rw [hVersion]
    decide +kernel

end TreeWatch
