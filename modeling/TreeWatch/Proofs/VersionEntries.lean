import TreeWatch.Proofs.Components
import TreeWatch.Proofs.Rewriting

/-!
# Where the version stands

Headers may repeat and sections may interleave, so the line that holds the version is found by going
through the file with the section in mind, while a new line is put below the first header that
opens the section. The two agree: wherever a version is written, that is where it is found next. So
setting the version is like setting a variable, and whatever it leaves alone stays as it was.

Main results:
  * `CounterFile.setVersion_entry`, `CounterFile.setVersion_header`, `CounterFile.setVersion_bare`:
    the three ways to set the version, by what there is
  * `CounterFile.setVersion_setVersion`: the version set last counts
  * `version_is_a_variable`: reading, setting and writing a file that was read and changed
-/

namespace TreeWatch

/-! ## Sections -/

/-- The name in a line, if it is a header. -/
def CounterLine.header? (line : CounterLine) : Option (List Char) :=
  match line.kind with
  | .header name => some name
  | _ => none

/-- Whether a line is a header that opens the section of the version. -/
def CounterLine.opens (line : CounterLine) : Bool :=
  line.header?.any opensSection

/-- Whether what follows some lines stands in the section of the version: the nearest header above
decides. -/
def insideBelow (above : List CounterLine) : Bool :=
  (above.reverse.findSome? CounterLine.header?).any opensSection

/-- A line below others is a version entry under a key. -/
structure VersionEntry (above : List CounterLine) (line : CounterLine) (key : List Char) :
    Prop where
  inside : insideBelow above = true
  isKey : isVersionKey key = true
  isEntry : ∃ value, line.kind = .entry key value

/-- There is no version entry among some lines. -/
def Unversioned (lines : List CounterLine) : Prop :=
  ∀ above line below, lines = above ++ line :: below → ∀ key, ¬ VersionEntry above line key

/-- What setting the version does to the lines of a file. The first version entry is rewritten,
under its key as spelled; if there is none, an entry is put below the first header of the section;
if there is no such header either, the header and the entry are added at the end. -/
inductive VersionChange (n : UInt64) : List CounterLine → List CounterLine → Prop where
  | rewritten {above below : List CounterLine} {line : CounterLine} {key : List Char}
      (hAbove : Unversioned above) (hEntry : VersionEntry above line key) :
      VersionChange n (above ++ line :: below) (above ++ versionLine key n :: below)
  | inserted {above below : List CounterLine} {header : CounterLine}
      (hNone : Unversioned (above ++ header :: below)) (hHeader : header.opens = true)
      (hFirst : ∀ line ∈ above, line.opens = false) :
      VersionChange n (above ++ header :: below)
        (above ++ header :: versionLine counterKey.toList n :: below)
  | appended {lines : List CounterLine} (hNone : Unversioned lines)
      (hBare : ∀ line ∈ lines, line.opens = false) :
      VersionChange n lines (lines ++ [sectionLine, versionLine counterKey.toList n])

variable {above below lines rest : List CounterLine} {line header : CounterLine} {key : List Char}
  {n m : UInt64}

theorem insideBelow_concat (above : List CounterLine) (line : CounterLine) :
    insideBelow (above ++ [line]) =
      match line.header? with
      | some name => opensSection name
      | none => insideBelow above := by
  unfold insideBelow
  rw [List.reverse_append, List.reverse_singleton, List.singleton_append, List.findSome?_cons]
  cases line.header? <;> rfl

/-- Below a header that opens the section one is inside. -/
theorem insideBelow_opens (h : line.opens = true) : insideBelow (above ++ [line]) = true := by
  rw [insideBelow_concat]
  unfold CounterLine.opens at h
  cases hHeader : line.header? with
  | none => rw [hHeader] at h; cases h
  | some name => rw [hHeader] at h; exact h

theorem unversioned_nil : Unversioned [] :=
  fun _ _ _ hLines => absurd hLines (by simp)

theorem Unversioned.front (h : Unversioned (lines ++ rest)) : Unversioned lines := by
  rintro above line below rfl
  exact h above line (below ++ rest) (by simp)

/-- One line more keeps a file without version entries if it is none there. -/
theorem unversioned_concat : Unversioned (above ++ [line]) ↔
    Unversioned above ∧ ∀ key, ¬ VersionEntry above line key := by
  refine ⟨fun h => ⟨h.front, h above line [] rfl⟩, ?_⟩
  rintro ⟨hAbove, hLine⟩ front other below hLines
  -- a line of both is the last one, or it is one of those above
  rcases List.eq_nil_or_concat below with rfl | ⟨below, last, rfl⟩
  · obtain ⟨rfl, hLast⟩ := List.append_inj' hLines rfl
    exact List.singleton_inj.mp hLast ▸ hLine
  · rw [List.concat_eq_append, ← List.cons_append, ← List.append_assoc] at hLines
    exact hAbove front other below (List.append_inj' hLines rfl).1

/-- A version entry stays one when it is rewritten. -/
theorem VersionEntry.rewritten (h : VersionEntry above line key) (n : UInt64) :
    VersionEntry above (versionLine key n) key :=
  ⟨h.inside, h.isKey, _, rfl⟩

/-- Below a header that opens the section a new entry is a version entry. -/
theorem versionEntry_below (h : header.opens = true) (n : UInt64) :
    VersionEntry (above ++ [header]) (versionLine counterKey.toList n) counterKey.toList :=
  ⟨insideBelow_opens h, isVersionKey_counterKey, _, rfl⟩

/-- A header is no version entry. -/
theorem not_versionEntry_of_opens (h : header.opens = true) : ¬ VersionEntry above header key := by
  rintro ⟨-, -, value, hKind⟩
  unfold CounterLine.opens CounterLine.header? at h
  rw [hKind] at h
  cases h

/-- Unless there is no version entry there is a first one. -/
theorem exists_first_entry (lines : List CounterLine) :
    Unversioned lines ∨ ∃ above line below key, lines = above ++ line :: below ∧
      Unversioned above ∧ VersionEntry above line key := by
  -- by induction from the end: the first entry stays the first when lines follow
  induction lines using List.reverseRecOn with
  | nil => exact Or.inl unversioned_nil
  | append_singleton front last ih =>
    rcases ih with hNone | ⟨above, line, below, key, rfl, hFirst⟩
    · by_cases hLast : ∃ key, VersionEntry front last key
      · obtain ⟨key, hEntry⟩ := hLast
        exact Or.inr ⟨front, last, [], key, rfl, hNone, hEntry⟩
      · rw [not_exists] at hLast
        exact Or.inl (unversioned_concat.mpr ⟨hNone, hLast⟩)
    · exact Or.inr ⟨above, line, below ++ [last], key, by simp, hFirst⟩

/-! ## Looking for the version entry -/

theorem rewriteVersion?_here (h : VersionEntry above line key) :
    rewriteVersion? n (insideBelow above) (line :: rest) = some (versionLine key n :: rest) := by
  obtain ⟨hInside, hKey, value, hKind⟩ := h
  rw [rewriteVersion?, hKind, hInside]
  exact if_pos hKey

/-- A line that is no version entry is passed, and may change the section. -/
theorem rewriteVersion?_pass (h : ∀ key, ¬ VersionEntry above line key) :
    rewriteVersion? n (insideBelow above) (line :: rest) =
      (rewriteVersion? n (insideBelow (above ++ [line])) rest).map (line :: ·) := by
  rw [rewriteVersion?, insideBelow_concat]
  unfold CounterLine.header?
  cases hKind : line.kind with
  | header name => rfl
  | other => rfl
  | entry key value =>
    have hNot : ¬ (insideBelow above && isVersionKey key) = true := fun hHere => by
      obtain ⟨hInside, hKey⟩ := Bool.and_eq_true_iff.mp hHere
      exact h key ⟨hInside, hKey, value, hKind⟩
    exact if_neg hNot

/-- Lines without a version entry are passed. -/
theorem rewriteVersion?_append (hAbove : Unversioned above) (rest : List CounterLine) :
    rewriteVersion? n false (above ++ rest) =
      (rewriteVersion? n (insideBelow above) rest).map (above ++ ·) := by
  -- by induction from the end, since the section is that of the lines above
  induction above using List.reverseRecOn generalizing rest with
  | nil => exact Option.map_id'.symm
  | append_singleton front last ih =>
    obtain ⟨hFront, hLast⟩ := unversioned_concat.mp hAbove
    rw [List.append_assoc, List.singleton_append, ih hFront, rewriteVersion?_pass hLast,
      Option.map_map]
    congr 1
    funext after
    exact List.append_cons front last after

theorem rewriteVersion?_unversioned (h : Unversioned lines) :
    rewriteVersion? n false lines = none := by
  have hAll := rewriteVersion?_append (n := n) h []
  rwa [List.append_nil] at hAll

/-- Lines that do not open the section are passed when a place for a new entry is looked for. -/
theorem insertVersion?_append (h : ∀ line ∈ above, line.opens = false) (rest : List CounterLine) :
    insertVersion? n (above ++ rest) = (insertVersion? n rest).map (above ++ ·) := by
  induction above with
  | nil => exact Option.map_id'.symm
  | cons line above ih =>
    have hRest := ih fun other hOther => h other (List.mem_cons_of_mem _ hOther)
    have hLine := h line List.mem_cons_self
    have hPass : insertVersion? n (line :: (above ++ rest)) =
        (insertVersion? n (above ++ rest)).map (line :: ·) := by
      unfold CounterLine.opens CounterLine.header? at hLine
      rw [insertVersion?]
      cases hKind : line.kind with
      | header name =>
        rw [hKind] at hLine
        exact if_neg (by simpa using hLine)
      | entry key value => rfl
      | other => rfl
    rw [List.cons_append, hPass, hRest, Option.map_map]
    rfl

theorem insertVersion?_here (h : header.opens = true) :
    insertVersion? n (header :: below) =
      some (header :: versionLine counterKey.toList n :: below) := by
  unfold CounterLine.opens CounterLine.header? at h
  rw [insertVersion?]
  cases hKind : header.kind with
  | header name =>
    rw [hKind] at h
    exact if_pos h
  | entry key value => rw [hKind] at h; cases h
  | other => rw [hKind] at h; cases h

/-! ## Setting the version -/

namespace CounterFile

/-- **The first version entry** is rewritten. -/
theorem setVersion_entry (hAbove : Unversioned above) (hEntry : VersionEntry above line key) :
    setVersion ⟨above ++ line :: below⟩ n = ⟨above ++ versionLine key n :: below⟩ := by
  unfold setVersion
  rw [rewriteVersion?_append hAbove, rewriteVersion?_here hEntry]
  rfl

/-- **Without a version entry** there is a new one below the first header of its section. -/
theorem setVersion_header (hNone : Unversioned (above ++ header :: below))
    (hHeader : header.opens = true) (hFirst : ∀ line ∈ above, line.opens = false) :
    setVersion ⟨above ++ header :: below⟩ n =
      ⟨above ++ header :: versionLine counterKey.toList n :: below⟩ := by
  unfold setVersion
  rw [rewriteVersion?_unversioned hNone, insertVersion?_append hFirst, insertVersion?_here hHeader]
  rfl

/-- **Without the section** there is a new one at the end. -/
theorem setVersion_bare (hNone : Unversioned lines) (hBare : ∀ line ∈ lines, line.opens = false) :
    setVersion ⟨lines⟩ n = ⟨lines ++ [sectionLine, versionLine counterKey.toList n]⟩ := by
  have hInsert := insertVersion?_append (n := n) hBare []
  rw [List.append_nil] at hInsert
  unfold setVersion
  rw [rewriteVersion?_unversioned hNone, hInsert]
  rfl

/-- Setting the version is one of the three. -/
theorem versionChange_setVersion (f : CounterFile) (n : UInt64) :
    VersionChange n f.lines (f.setVersion n).lines := by
  obtain ⟨lines⟩ := f
  rcases exists_first_entry lines with hNone | ⟨above, line, below, key, rfl, hAbove, hEntry⟩
  · cases hFind : lines.find? CounterLine.opens with
    | none =>
      have hBare : ∀ line ∈ lines, line.opens = false := by simpa using hFind
      rw [setVersion_bare hNone hBare]
      exact .appended hNone hBare
    | some header =>
      obtain ⟨hHeader, above, below, rfl, hFirst⟩ := List.find?_eq_some_iff_append.mp hFind
      have hFirst : ∀ line ∈ above, line.opens = false := by simpa using hFirst
      rw [setVersion_header hNone hHeader hFirst]
      exact .inserted hNone hHeader hFirst
  · rw [setVersion_entry hAbove hEntry]
    exact .rewritten hAbove hEntry

end CounterFile

/-- What was written is the first version entry next, in each of the three cases. -/
theorem VersionChange.setVersion_eq {after : List CounterLine} (h : VersionChange n lines after) :
    CounterFile.setVersion ⟨after⟩ m = CounterFile.setVersion ⟨lines⟩ m := by
  -- above the entry that was written there is no version entry, so it is the first one next
  cases h with
  | rewritten hAbove hEntry =>
    rw [CounterFile.setVersion_entry hAbove (hEntry.rewritten n),
      CounterFile.setVersion_entry hAbove hEntry]
  | @inserted above below header hNone hHeader hFirst =>
    have hAbove : Unversioned (above ++ [header]) := by
      rw [List.append_cons] at hNone
      exact hNone.front
    rw [CounterFile.setVersion_header hNone hHeader hFirst, List.append_cons,
      CounterFile.setVersion_entry hAbove (versionEntry_below hHeader n), ← List.append_cons]
  | appended hNone hBare =>
    have hHeader : sectionLine.opens = true := by decide
    have hAbove : Unversioned (lines ++ [sectionLine]) :=
      unversioned_concat.mpr ⟨hNone, fun _ => not_versionEntry_of_opens hHeader⟩
    rw [CounterFile.setVersion_bare hNone hBare, List.append_cons,
      CounterFile.setVersion_entry hAbove (versionEntry_below hHeader n), ← List.append_cons]

namespace CounterFile

/-- **The version set last counts.** -/
theorem setVersion_setVersion (f : CounterFile) (n m : UInt64) :
    (f.setVersion n).setVersion m = f.setVersion m :=
  (f.versionChange_setVersion n).setVersion_eq

/-- The version that was set is the one that is read. -/
theorem version_setVersion (f : CounterFile) (n : UInt64) : (f.setVersion n).version = .ok n := by
  obtain ⟨added, hSet, -⟩ := setVersion_spec f n
  rw [version, hSet.version]
  dsimp only
  rw [Numeral.read_write]
  rfl

/-! ## Files as they come about -/

/-- A file that was read, or is a new one, and had its version set any number of times. -/
inductive Derived : CounterFile → Prop where
  | new : Derived {}
  | read {text : String} {f : CounterFile} (h : parse text = .ok f) : Derived f
  | set {f : CounterFile} (h : Derived f) (n : UInt64) : Derived (f.setVersion n)

/-- The lines of such a file can be read again as they are written. -/
theorem Derived.legible {f : CounterFile} (h : f.Derived) : ∀ line ∈ f.lines, line.Legible := by
  induction h with
  | new => simp
  | read hRead => exact legible_of_parse hRead
  | @set f _ n ih =>
    obtain ⟨added, hSet, -⟩ := setVersion_spec f n
    exact hSet.legible ih

end CounterFile

/-- Lines that are written one after another are what stands between the line feeds, and nothing
stands behind the last one. -/
theorem Text.split_unlines {ls : List (List Char)} (h : ∀ line ∈ ls, '\n' ∉ line) :
    Pieces.split '\n' (Text.unlines ls) = ls ++ [[]] := by
  induction ls with
  | nil => rfl
  | cons line rest ih =>
    have hRest := ih fun other hOther => h other (List.mem_cons_of_mem _ hOther)
    unfold Text.unlines at hRest ⊢
    rw [List.flatMap_cons, List.append_assoc, List.singleton_append, Pieces.split_append,
      Pieces.split_of_not_mem (h line List.mem_cons_self), hRest]
    rfl

/-- The text of a file, cut at the line feeds. -/
theorem CounterFile.Derived.split_render {f : CounterFile} (h : f.Derived) :
    Pieces.split '\n' f.render.toList = f.lines.map CounterLine.raw ++ [[]] := by
  unfold render
  rw [String.toList_ofList]
  refine Text.split_unlines fun raw hRaw => ?_
  obtain ⟨line, hLine, rfl⟩ := List.mem_map.mp hRaw
  exact (h.legible line hLine).unbroken

/-! ## Main result -/

/--
**The version is a variable** of a counter file, and the rest of the file is not touched. Take a
file that was read, or a new one, after its version was set any number of times:
* the version that is set is the one that is read;
* setting it again is like setting it once, to what came last;
* where there is a version entry the first one is rewritten under its key, else an entry is put
  below the first header of the section, else the header and the entry are added at the end; all
  other lines stay, with their text, their meaning and their order;
* the text written for it consists of its lines, each ended by a line feed.
-/
theorem version_is_a_variable {f : CounterFile} (h : f.Derived) (n m : UInt64) :
    (f.setVersion n).version = .ok n ∧
      (f.setVersion n).setVersion m = f.setVersion m ∧
      VersionChange n f.lines (f.setVersion n).lines ∧
      Pieces.split '\n' (f.setVersion n).render.toList =
        (f.setVersion n).lines.map CounterLine.raw ++ [[]] :=
  ⟨f.version_setVersion n, f.setVersion_setVersion n m, f.versionChange_setVersion n,
    (h.set n).split_render⟩

/-- A version outside of any section, one in another section, and one that counts: below the second
of two headers, behind a blank and in capitals. -/
def interleavedText : String :=
  "Version=0\n[general]\n[x]\nVersion=7\n[GENERAL]\n VERSION = 4\n"

theorem interleaved_version_is_set :
    ∃ f, CounterFile.parse interleavedText = .ok f ∧ (f.setVersion 5).version = .ok 5 ∧
      (f.setVersion 5).setVersion 9 = f.setVersion 9 ∧
      Pieces.split '\n' (f.setVersion 5).render.toList =
        ["Version=0".toList, "[general]".toList, "[x]".toList, "Version=7".toList,
          "[GENERAL]".toList, "VERSION=5".toList, []] := by
  obtain ⟨f, hRead, hLines⟩ : ∃ f, CounterFile.parse interleavedText = .ok f ∧
      (f.setVersion 5).lines.map CounterLine.raw = ["Version=0".toList, "[general]".toList,
        "[x]".toList, "Version=7".toList, "[GENERAL]".toList, "VERSION=5".toList] :=
    ⟨⟨[⟨"Version=0".toList, .entry "Version".toList ['0']⟩,
      ⟨"[general]".toList, .header "general".toList⟩, ⟨"[x]".toList, .header ['x']⟩,
      ⟨"Version=7".toList, .entry "Version".toList ['7']⟩,
      ⟨"[GENERAL]".toList, .header "GENERAL".toList⟩,
      ⟨" VERSION = 4".toList, .entry "VERSION".toList ['4']⟩]⟩,
      by decide +kernel, by decide +kernel⟩
  obtain ⟨hVersion, hAgain, -, hText⟩ := version_is_a_variable (.read hRead) 5 9
  rw [hLines] at hText
  exact ⟨f, hRead, hVersion, hAgain, hText⟩

end TreeWatch
