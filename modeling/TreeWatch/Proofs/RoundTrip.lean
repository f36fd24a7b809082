import TreeWatch.Proofs.Grammar

/-!
# Written configurations come back

A configuration that is written as JSON, on one line or with every item on a line of its own, is
read as the same configuration: the directories as they were spelled and in their order, whatever
characters they hold, the grace period and how much is logged.

Main results:
  * `Json.Layout.spells_list`, `Json.Layout.exists_members`: lists and objects as they are written
    are such that a reader takes the values in them one by one
  * `config_reads_back`: whatever is written is read as it was
-/

namespace TreeWatch

namespace Json

variable {α : Type} (layout : Layout) (depth : Nat)

/-! ## Layouts -/

theorem Layout.blanks_lineBreak : Blanks (layout.lineBreak depth) := by
  cases layout with
  | compact => exact blanks_nil
  | indented =>
    intro c hMem
    rcases List.mem_cons.mp hMem with rfl | hSpace
    · decide
    · rw [List.eq_of_mem_replicate hSpace]
      decide

theorem Layout.exists_gap : ∃ gap, layout.colon = ':' :: gap ∧ Blanks gap := by
  cases layout with
  | compact => exact ⟨[], rfl, blanks_nil⟩
  | indented => exact ⟨[' '], rfl, by simp [Blanks, isBlank]⟩

/-- Every item but the first has a comma in front. -/
theorem Layout.items_cons (item : List Char) (more : List (List Char)) :
    layout.items depth (item :: more) = layout.lineBreak depth ++ (item ++
      more.flatMap fun next => ',' :: (layout.lineBreak depth ++ next)) := by
  induction more generalizing item with
  | nil => simp [items]
  | cons next more ih => simp [items, ih]

/-! ## Lists -/

/-- What is written behind an item of a list. -/
theorem Layout.itemsText_tail {read : Reader α} {write : α → List Char} {closing : List Char}
    (hClosing : Blanks closing) {xs : List α} (h : ∀ x ∈ xs, Spells read (write x) x) :
    ItemsText read false ((xs.map write).flatMap (fun next =>
      ',' :: (layout.lineBreak depth ++ next)) ++ (closing ++ [']'])) xs := by
  -- by induction on the items: the first of them stands behind a comma
  induction xs with
  | nil => exact .close false hClosing
  | cons x xs ih =>
    have hTail := ih fun y hy => h y (List.mem_cons_of_mem _ hy)
    have hText := ItemsText.next blanks_nil (layout.blanks_lineBreak depth)
      (h x List.mem_cons_self) hTail
    simpa only [List.map_cons, List.flatMap_cons, List.cons_append, List.append_assoc,
      List.nil_append] using hText

/-- **A list** as it is written spells its items. -/
theorem Layout.spells_list {read : Reader α} {write : α → List Char} {xs : List α}
    (h : ∀ x ∈ xs, Spells read (write x) x) :
    Spells (readList read) (layout.list depth (xs.map write)) xs := by
  cases xs with
  | nil => exact Json.spells_list (.close true blanks_nil)
  | cons x xs =>
    have hTail := layout.itemsText_tail (depth + 1) (layout.blanks_lineBreak depth)
      fun y hy => h y (List.mem_cons_of_mem _ hy)
    have hText := ItemsText.first (layout.blanks_lineBreak (depth + 1))
      (h x List.mem_cons_self) hTail
    have hWritten : layout.list depth ((x :: xs).map write) = '[' ::
        (layout.lineBreak (depth + 1) ++ (write x ++ ((xs.map write).flatMap (fun next =>
          ',' :: (layout.lineBreak (depth + 1) ++ next)) ++
          (layout.lineBreak depth ++ [']'])))) := by
      rw [list, bracket, if_neg (by simp), List.map_cons, items_cons]
      simp only [List.cons_append, List.append_assoc]
    rw [hWritten]
    exact Json.spells_list hText

/-! ## Objects -/

theorem keyText_written (name : String) :
    KeyText name (name.toList.flatMap writeChar ++ ['\x22']) := by
  intro rest
  rw [List.append_assoc, List.singleton_append, readString_written]

/-- The value of a member behind the key, as it is written. -/
theorem Layout.takes_value {read : Reader α} {text : List Char} {x : α} (key : String)
    (h : Spells read text x) :
    Takes (readOnce key none read) (layout.colon ++ text) (some x) := by
  obtain ⟨gap, hColon, hGap⟩ := layout.exists_gap
  rw [hColon]
  exact takes_once key blanks_nil hGap h

/-- **An object** of two members as it is written is read member by member. -/
theorem Layout.exists_members {member : String → α → Reader α} {one two : String}
    {valueOne valueTwo : List Char} {before between after : α}
    (hOne : Takes (member one before) (layout.colon ++ valueOne) between)
    (hTwo : Takes (member two between) (layout.colon ++ valueTwo) after) :
    ∃ text, layout.object depth [(one.toList, valueOne), (two.toList, valueTwo)] = '\x7b' :: text ∧
      MembersText member true before text after := by
  -- from the closing brace to the first member
  have hClose : MembersText member false after (layout.lineBreak depth ++ ['\x7d']) after :=
    .close false after (layout.blanks_lineBreak depth)
  have hLast := MembersText.next blanks_nil (layout.blanks_lineBreak (depth + 1))
    (keyText_written two) hTwo hClose
  refine ⟨_, ?_, MembersText.first (layout.blanks_lineBreak (depth + 1)) (keyText_written one) hOne
    hLast⟩
  rw [object, bracket, if_neg (by simp), List.map_cons, items_cons]
  simp [writeString]

end Json

open Json

/-! ## Configurations -/

/-- A directory name is read as it is spelled. -/
theorem Path.spells_name (dir : Path) {text : List Char} (h : KeyText dir.spelling text) :
    Spells Path.readJson ('\x22' :: text) dir := by
  refine spells_of_takes (by decide) (by decide) (fun s t hSame => ?_) fun rest _ => ?_
  · unfold Path.readJson
    rw [hSame]
  · unfold Path.readJson
    rw [List.cons_append, skipBlanks_cons (by decide)]
    simp only [bind, Except.bind, pure, Except.pure, h rest, String.ofList_toList]

theorem Path.spells_written (dir : Path) :
    Spells Path.readJson (writeString dir.spelling.toList) dir :=
  dir.spells_name (keyText_written dir.spelling)

namespace WatchConfig

theorem spells_grace (grace : UInt64) : Spells readGrace (Nat.toDigits 10 grace.toNat) grace := by
  have hRange : grace.toNat ≤ UInt64.size - 1 := Nat.le_sub_one_of_lt grace.toNat_lt
  have h : Spells readGrace (Nat.toDigits 10 grace.toNat) (UInt64.ofNat grace.toNat) :=
    (spells_natural "u64" hRange hRange).map UInt64.ofNat fun _ => rfl
  rwa [UInt64.ofNat_toNat] at h

/-- The directories are kept as they are read. -/
theorem takes_dirs (known : Known) {text : List Char} {dirs : List Path} (hNew : known.dirs? = none)
    (h : Takes (readOnce "dirs" none (readList Path.readJson)) text (some dirs)) :
    Takes (member "dirs" known) text ⟨some dirs, known.grace?⟩ := by
  intro rest hRest
  unfold member
  rw [if_pos rfl, hNew, h rest hRest]
  rfl

theorem takes_grace (known : Known) {text : List Char} {grace : UInt64}
    (hNew : known.grace? = none)
    (h : Takes (readOnce "grace_period_ms" none readGrace) text (some grace)) :
    Takes (member "grace_period_ms" known) text ⟨known.dirs?, some grace⟩ := by
  intro rest hRest
  unfold member
  rw [if_neg (by decide), if_pos rfl, hNew, h rest hRest]
  rfl

/-- An object of members is read as the section they make. -/
theorem spells_members {text : List Char} {known : Known}
    (h : MembersText member true {} text known) :
    Spells readJson ('\x7b' :: text) known.filled := by
  refine spells_object fun rest => ?_
  unfold readObject
  rw [h.read rest _ (by simp; omega)]
  rfl

/-- The section as it is written is read as it was. -/
theorem spells_written (layout : Layout) (depth : Nat) (c : WatchConfig) :
    Spells readJson (layout.object depth
      [("dirs".toList, layout.list (depth + 1)
        (c.dirs.map fun dir => writeString dir.spelling.toList)),
        ("grace_period_ms".toList, Nat.toDigits 10 c.gracePeriodMs.toNat)]) c := by
  have hDirs := takes_dirs {} rfl <| layout.takes_value "dirs" <|
    layout.spells_list (depth + 1) fun dir (_ : dir ∈ c.dirs) => dir.spells_written
  have hGrace := takes_grace ⟨some c.dirs, none⟩ rfl <|
    layout.takes_value "grace_period_ms" <| spells_grace c.gracePeriodMs
  obtain ⟨text, hText, hMembers⟩ := layout.exists_members depth hDirs hGrace
  rw [hText]
  exact spells_members hMembers

end WatchConfig

namespace Config

theorem spells_verbose (verbose : UInt8) :
    Spells readVerbose (Nat.toDigits 10 verbose.toNat) verbose := by
  have hRange : verbose.toNat ≤ UInt8.size - 1 := Nat.le_sub_one_of_lt verbose.toNat_lt
  have h : Spells readVerbose (Nat.toDigits 10 verbose.toNat) (UInt8.ofNat verbose.toNat) :=
    (spells_natural "u8" hRange (Nat.le_trans hRange (by decide))).map UInt8.ofNat fun _ => rfl
  rwa [UInt8.ofNat_toNat] at h

theorem takes_watch (known : Known) {text : List Char} {watch : WatchConfig}
    (hNew : known.watch? = none)
    (h : Takes (readOnce "watch" none WatchConfig.readJson) text (some watch)) :
    Takes (member "watch" known) text ⟨some watch, known.verbose?⟩ := by
  intro rest hRest
  unfold member
  rw [if_pos rfl, hNew, h rest hRest]
  rfl

theorem takes_verbose (known : Known) {text : List Char} {verbose : UInt8}
    (hNew : known.verbose? = none)
    (h : Takes (readOnce "verbose" none readVerbose) text (some verbose)) :
    Takes (member "verbose" known) text ⟨known.watch?, some verbose⟩ := by
  intro rest hRest
  unfold member
  rw [if_neg (by decide), if_pos rfl, hNew, h rest hRest]
  rfl

/-- An object of members is read as the configuration they make. -/
theorem spells_members {text : List Char} {known : Known}
    (h : MembersText member true {} text known) :
    Spells (readStructure "struct Config" readObject readFields) ('\x7b' :: text) known.filled := by
  refine spells_object fun rest => ?_
  unfold readObject
  rw [h.read rest _ (by simp; omega)]
  rfl

/-- A text that spells a configuration is read, with any blanks around it. -/
theorem read_spelled {text before after : List Char} {c : Config}
    (h : Spells (readStructure "struct Config" readObject readFields) text c)
    (hBefore : Blanks before) (hAfter : Blanks after) :
    read (String.ofList (before ++ text ++ after)) = .ok c := by
  have hEnds : Ends after := by simpa using ends_nil.append hAfter
  unfold read readAll
  rw [String.toList_ofList, h.takes before hBefore after hEnds]
  simp only [bind, Except.bind, pure, Except.pure, skipBlanks_eq_nil hAfter, Except.mapError]

theorem spells_written (layout : Layout) (c : Config) :
    Spells (readStructure "struct Config" readObject readFields) (c.write layout).toList c := by
  have hWatch := takes_watch {} rfl <| layout.takes_value "watch" <|
    WatchConfig.spells_written layout 1 c.watch
  have hVerbose := takes_verbose ⟨some c.watch, none⟩ rfl <|
    layout.takes_value "verbose" <| spells_verbose c.verbose
  obtain ⟨text, hText, hMembers⟩ := layout.exists_members 0 hWatch hVerbose
  rw [write, String.toList_ofList, hText]
  exact spells_members hMembers

theorem read_written (c : Config) (layout : Layout) : read (c.write layout) = .ok c := by
  have h := read_spelled (c.spells_written layout) blanks_nil blanks_nil
  simpa using h

/-- The line break that a configuration is shown with is a blank behind the value. -/
theorem read_shown (c : Config) : read (c.write .indented ++ "\n") = .ok c := by
  have h := read_spelled (c.spells_written .indented) blanks_nil
    (show Blanks ['\n'] by simp [Blanks, isBlank])
  rw [List.nil_append, String.ofList_append, String.ofList_toList] at h
  exact h

end Config

/-- **Whatever is written is read as it was**: the directories with their spellings and in their
order, the grace period and how much is logged, in either layout, and with the line break that a
configuration is shown with. -/
theorem config_reads_back (c : Config) :
    (∀ layout, Config.read (c.write layout) = .ok c) ∧
      Config.read (c.write .indented ++ "\n") = .ok c :=
  ⟨c.read_written, c.read_shown⟩

end TreeWatch
