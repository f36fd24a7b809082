import Mathlib.Data.List.Duplicate
import TreeWatch.Config.Validation
import TreeWatch.Proofs.RoundTrip
import TreeWatch.Proofs.Skipping

/-!
# Configurations given in part

A configuration file need not give every field. Its members may come in any order, be mixed with
others that nobody knows, and hold blanks and escapes wherever JSON allows them (`ConfigText`). The
fields that are there have the values they are given, the others their defaults; a field that comes
twice in one object is a fault, whatever the two values are.

An object is read member by member, and what is known at any point is what the members so far have
given. A reader therefore settles (`Settles`): it ends with all that was given, or at the first
field that was given before.

Main results:
  * `ObjectText.settles`: an object settles if each member does on top of those before it
  * `WatchConfig.adds_member`, `Config.adds_member`: the members of both objects do
  * `configurations_in_part`: what becomes of a configuration given in part
-/

namespace TreeWatch

namespace Json

variable {α β μ : Type}

/-! ## Texts -/

/-- The text of a list behind its opening bracket (`first`) or behind one of its items, up to and
with the closing bracket. -/
inductive ListText (means : List Char → α → Prop) : Bool → List Char → List α → Prop where
  | close {blanks : List Char} (first : Bool) (hBlanks : Blanks blanks) :
      ListText means first (blanks ++ [']']) []
  | item {opening text tail : List Char} {first : Bool} {x : α} {xs : List α}
      (hOpening : Opening first opening) (hMeans : means text x)
      (hTail : ListText means false tail xs) :
      ListText means first (opening ++ (text ++ tail)) (x :: xs)

/-- The text of an object behind its opening brace (`first`) or behind one of its members, up to and
with the closing brace. A member is what its name and the text of its value mean. -/
inductive ObjectText (means : String → List Char → μ → Prop) :
    Bool → List Char → List μ → Prop where
  | close {blanks : List Char} (first : Bool) (hBlanks : Blanks blanks) :
      ObjectText means first (blanks ++ ['\x7d']) []
  | member {opening key colon value tail : List Char} {first : Bool} {name : String} {m : μ}
      {ms : List μ} (hOpening : Opening first opening) (hKey : StringText key name.toList)
      (hColon : ColonText colon) (hMeans : means name value m)
      (hTail : ObjectText means false tail ms) :
      ObjectText means first (opening ++ '\x22' :: (key ++ (colon ++ (value ++ tail)))) (m :: ms)

theorem ListText.items {means : List Char → α → Prop} {item : Reader α} {first : Bool}
    {text : List Char} {xs : List α} (h : ListText means first text xs)
    (hMeans : ∀ {text x}, means text x → Spells item text x) : ItemsText item first text xs := by
  induction h with
  | close first hBlanks => exact .close first hBlanks
  | item hOpening hItem _ ih =>
    cases hOpening with
    | first hBlanks => exact .first hBlanks (hMeans hItem) ih
    | next hBlanks hGap =>
      rw [List.append_assoc, List.cons_append]
      exact .next hBlanks hGap (hMeans hItem) ih

theorem ObjectText.ends {means : String → List Char → μ → Prop} {text : List Char} {ms : List μ}
    (h : ObjectText means false text ms) (rest : List Char) : Ends (text ++ rest) := by
  cases h with
  | close _ hBlanks =>
    rw [List.append_assoc]
    exact .append hBlanks (.cons (by simp))
  | member hOpening _ _ _ _ =>
    rw [List.append_assoc]
    exact hOpening.ends _

theorem Opening.nextKey {first : Bool} {opening : List Char} (h : Opening first opening)
    (rest : List Char) : Json.nextKey first (opening ++ '\x22' :: rest) = .ok (some rest) := by
  cases h with
  | first hBlanks => exact nextKey_first hBlanks
  | next hBlanks hGap =>
    rw [List.append_assoc, List.cons_append]
    exact nextKey_next hBlanks hGap

/-! ## Fields that come twice -/

/-- A field comes twice: two of the members give it, or it does so inside the value of one. -/
def Repeats (field? : μ → Option String) (inside : μ → String → Prop) (ms : List μ)
    (key : String) : Prop :=
  (ms.filterMap field?).Duplicate key ∨ ∃ m ∈ ms, inside m key

section Repeats

variable {field? : μ → Option String} {inside : μ → String → Prop} {before : List μ} {m : μ}
  {key : String}

theorem not_repeats_nil (key : String) : ¬ Repeats field? inside [] key := by
  simp [Repeats]

theorem Repeats.append (h : Repeats field? inside before key) (ms : List μ) :
    Repeats field? inside (before ++ ms) key := by
  rcases h with hTwice | ⟨m, hMem, hInside⟩
  · exact .inl (hTwice.mono_sublist ((List.sublist_append_left before ms).filterMap field?))
  · exact .inr ⟨m, List.mem_append_left ms hMem, hInside⟩

/-- One more member repeats a field if that was given before, or comes twice inside its value. -/
theorem repeats_concat (h : ∀ key, ¬ Repeats field? inside before key) :
    Repeats field? inside (before ++ [m]) key ↔
      field? m = some key ∧ key ∈ before.filterMap field? ∨ inside m key := by
  -- no field was given twice so far, so one more makes two if it was given at all
  have hOnce : (before.filterMap field?).count key ≤ 1 := by
    have hNot : ¬ (before.filterMap field?).Duplicate key := fun hTwice => h key (.inl hTwice)
    rw [List.duplicate_iff_two_le_count] at hNot
    omega
  have hInside : ¬ ∃ m ∈ before, inside m key := fun hSome => h key (.inr hSome)
  have hTwice : ((before ++ [m]).filterMap field?).Duplicate key ↔
      field? m = some key ∧ key ∈ before.filterMap field? := by
    rw [List.filterMap_append, List.duplicate_iff_two_le_count, List.count_append,
      ← List.count_pos_iff]
    by_cases hKey : field? m = some key
    · simp [hKey]
    · have hOther : ([m].filterMap field?).count key = 0 := by
        simpa [List.count_eq_zero, List.mem_filterMap] using hKey
      simp [hKey, hOther]
      omega
  rw [Repeats, hTwice]
  simp only [List.mem_append, List.mem_singleton]
  constructor
  · rintro (hGiven | ⟨n, hMem | rfl, hHere⟩)
    · exact .inl hGiven
    · exact absurd ⟨n, hMem, hHere⟩ hInside
    · exact .inr hHere
  · rintro (hGiven | hHere)
    · exact .inl hGiven
    · exact .inr ⟨m, .inr rfl, hHere⟩

/-- A field is among those of the members if one of them gives its value. -/
theorem mem_fields_iff {give? : μ → Option β} {ms : List μ}
    (hField : ∀ m, field? m = some key ↔ (give? m).isSome) :
    key ∈ ms.filterMap field? ↔ (ms.findSome? give?).isSome := by
  simp [List.mem_filterMap, List.findSome?_isSome_iff, hField]

/-- What is given stays with a member that does not give it. -/
theorem findSome?_concat_none (give? : μ → Option β) (h : give? m = none) :
    (before ++ [m]).findSome? give? = before.findSome? give? := by
  simp [List.findSome?_append, h]

end Repeats

/-! ## Readers that settle -/

/-- What a reader makes of a text that is in order, but for fields that may come twice in it: the
value, with the rest left, or the fault of a field that does. -/
inductive Settles (twice : String → Prop) (x : α) (rest : List Char) :
    Except Fault (Scanned α) → Prop where
  | read (hOnce : ∀ key, ¬ twice key) : Settles twice x rest (.ok (x, rest))
  | refused {key : String} (unread : Nat) (hTwice : twice key) :
      Settles twice x rest (.error ⟨.duplicateField key, unread⟩)

theorem Settles.congr {twice again : String → Prop} {x y : α} {rest : List Char}
    {found : Except Fault (Scanned α)} (h : Settles twice x rest found)
    (hTwice : ∀ key, twice key ↔ again key) (hSame : (∀ key, ¬ again key) → x = y) :
    Settles again y rest found := by
  cases h with
  | read hOnce =>
    have hNone : ∀ key, ¬ again key := fun key hAgain => hOnce key ((hTwice key).mpr hAgain)
    rw [hSame hNone]
    exact .read hNone
  | refused unread hKey => exact .refused unread ((hTwice _).mp hKey)

/-- A value made of the one that is read settles the same. -/
theorem Settles.map {twice : String → Prop} {x : α} {rest : List Char}
    {found : Except Fault (Scanned α)} (h : Settles twice x rest found) (f : α → β) :
    Settles twice (f x) rest (found >>= fun r => pure (f r.1, r.2)) := by
  cases h with
  | read hOnce => exact .read hOnce
  | refused unread hKey => exact .refused unread hKey

/-- A value in which no field can come twice is read. -/
theorem Spells.settles {read : Reader α} {text gap rest : List Char} {x : α}
    {twice : String → Prop} (h : Spells read text x) (hGap : Blanks gap) (hRest : Ends rest)
    (hOnce : ∀ key, ¬ twice key) : Settles twice x rest (read (gap ++ (text ++ rest))) := by
  rw [← List.append_assoc, h.takes gap hGap rest hRest]
  exact .read hOnce

section Members

variable {field? : μ → Option String} {inside : μ → String → Prop} {before : List μ} {m : μ}
  {colon value rest : List Char}

/-- A field that one more member gives: it is kept, unless there is one already. -/
theorem settles_field {give? : μ → Option β} {key : String}
    (hField : ∀ m, field? m = some key ↔ (give? m).isSome)
    (hNew : ∀ key, ¬ Repeats field? inside before key) {x : β} (hGive : give? m = some x)
    {read : Reader β} (hColon : ColonText colon)
    (hRead : ∀ gap, Blanks gap → Settles (inside m) x rest (read (gap ++ (value ++ rest)))) :
    Settles (Repeats field? inside (before ++ [m])) ((before ++ [m]).findSome? give?) rest
      (readOnce key (before.findSome? give?) read (colon ++ (value ++ rest))) := by
  have hKey : field? m = some key := (hField m).mpr (by simp [hGive])
  unfold readOnce
  by_cases hBefore : (before.findSome? give?).isSome
  · -- the second value is not even looked at
    rw [if_pos hBefore]
    exact .refused _ ((repeats_concat hNew).mpr (.inl ⟨hKey, (mem_fields_iff hField).mpr hBefore⟩))
  · obtain ⟨gap, hGap, hBehind⟩ := hColon.read
    rw [if_neg hBefore, hBehind]
    refine ((hRead gap hGap).map some).congr (fun other => ?_) fun _ => ?_
    · -- what comes twice now does so inside the value
      rw [repeats_concat hNew, hKey]
      constructor
      · exact .inr
      · rintro (⟨hOther, hMem⟩ | hInside)
        · obtain rfl : key = other := Option.some.inj hOther
          exact absurd ((mem_fields_iff hField).mp hMem) hBefore
        · exact hInside
    · rw [Option.not_isSome_iff_eq_none] at hBefore
      simp [List.findSome?_append, hBefore, hGive]

/-- A member that nobody knows is passed over. -/
theorem settles_unknown (hNew : ∀ key, ¬ Repeats field? inside before key)
    (hField : field? m = none) (hInside : ∀ key, ¬ inside m key) (known : α)
    (hColon : ColonText colon) (hValue : JsonText .value value) (hRest : Ends rest) :
    Settles (Repeats field? inside (before ++ [m])) known rest
      (skipMember known (colon ++ (value ++ rest))) := by
  obtain ⟨gap, hGap, hBehind⟩ := hColon.read
  unfold skipMember
  rw [hBehind]
  show Settles _ _ _ (skipValue (gap ++ (value ++ rest)) >>= _)
  rw [hValue.skipValue hGap hRest]
  refine .read fun key hTwice => ?_
  rcases (repeats_concat hNew).mp hTwice with ⟨hKey, -⟩ | hHere
  · simp [hField] at hKey
  · exact hInside key hHere

/-- How one member is read: on top of what those before it have given, it settles to what is given
with it. -/
def Adds (means : String → List Char → μ → Prop) (field? : μ → Option String)
    (inside : μ → String → Prop) (known : List μ → α) (member : String → α → Reader α) : Prop :=
  ∀ ⦃before : List μ⦄ ⦃m : μ⦄ ⦃name : String⦄ ⦃colon value rest : List Char⦄,
    (∀ key, ¬ Repeats field? inside before key) → means name value m → ColonText colon →
      Ends rest → Settles (Repeats field? inside (before ++ [m])) (known (before ++ [m])) rest
        (member name (known before) (colon ++ (value ++ rest)))

/-- **An object settles** to what its members give. -/
theorem ObjectText.settles {means : String → List Char → μ → Prop} {known : List μ → α}
    {member : String → α → Reader α} (hAdds : Adds means field? inside known member) {first : Bool}
    {text : List Char} {ms : List μ} (h : ObjectText means first text ms) (rest : List Char) :
    ∀ (before : List μ) (fuel : Nat), (∀ key, ¬ Repeats field? inside before key) →
      text.length ≤ fuel →
        Settles (Repeats field? inside (before ++ ms)) (known (before ++ ms)) rest
          (readMembers member fuel first (known before) (text ++ rest)) := by
  -- by induction on the text, for any members before it
  induction h with
  | close first hBlanks =>
    intro before fuel hNew hFuel
    obtain ⟨fuel, rfl⟩ : ∃ n, fuel = n + 1 := ⟨fuel - 1, by simp at hFuel; omega⟩
    rw [List.append_assoc, List.singleton_append, readMembers_close fuel first _ hBlanks,
      List.append_nil]
    exact .read hNew
  | @member opening key colon value tail first name m ms hOpening hKey hColon hMeans hTail ih =>
    intro before fuel hNew hFuel
    obtain ⟨fuel, rfl⟩ : ∃ n, fuel = n + 1 := ⟨fuel - 1, by simp at hFuel; omega⟩
    have hHere := hAdds hNew hMeans hColon (hTail.ends rest)
    have hAppend : before ++ m :: ms = before ++ [m] ++ ms := by simp
    simp only [List.append_assoc, List.cons_append]
    rw [readMembers_turn (hOpening.nextKey _) hKey.read, hAppend]
    -- the member decides: it is added, or reading ends with it
    generalize member name (known before) (colon ++ (value ++ (tail ++ rest))) = found at hHere ⊢
    cases hHere with
    | read hOnce => exact ih _ fuel hOnce (by simp at hFuel; omega)
    | refused unread hTwice => exact .refused unread (hTwice.append ms)

/-- A structure that is written as an object. -/
theorem settles_structure {twice : String → Prop} {x : α} {wanted : String} {object list : Reader α}
    {gap text : List Char} (hGap : Blanks gap) (h : Settles twice x rest (object (text ++ rest))) :
    Settles twice x rest (readStructure wanted object list (gap ++ '\x7b' :: (text ++ rest))) := by
  unfold readStructure
  rw [skipBlanks_append hGap, skipBlanks_cons (by decide)]
  exact h

end Members

end Json

open Json

/-! ## The watch section -/

/-- The text of a directory name. -/
inductive Path.NameText : List Char → Path → Prop where
  | string {text : List Char} {dir : Path} (hText : StringText text dir.spelling.toList) :
      NameText ('\x22' :: text) dir

theorem Path.NameText.spells {text : List Char} {dir : Path} (h : NameText text dir) :
    Spells Path.readJson text dir := by
  cases h with
  | string hText => exact dir.spells_name hText.read

namespace WatchConfig

/-- A member of the section, by what it gives. -/
inductive Item where
  | dirs (dirs : List Path)
  | grace (gracePeriodMs : UInt64)
  | unknown

/-- The field a member gives. -/
def Item.field? : Item → Option String
  | .dirs _ => some "dirs"
  | .grace _ => some "grace_period_ms"
  | .unknown => none

def Item.dirs? : Item → Option (List Path)
  | .dirs found => some found
  | _ => none

def Item.grace? : Item → Option UInt64
  | .grace found => some found
  | _ => none

theorem Item.field?_eq_dirs (m : Item) : m.field? = some "dirs" ↔ m.dirs?.isSome := by
  cases m <;> simp [field?, dirs?]

theorem Item.field?_eq_grace (m : Item) : m.field? = some "grace_period_ms" ↔ m.grace?.isSome := by
  cases m <;> simp [field?, grace?]

/-- What the name of a member and the text of its value mean. A whole number has no text but its
digits; under any other name stands any value. -/
inductive Means : String → List Char → Item → Prop where
  | dirs {text : List Char} {dirs : List Path} (hDirs : ListText Path.NameText true text dirs) :
      Means "dirs" ('[' :: text) (.dirs dirs)
  | grace (gracePeriodMs : UInt64) :
      Means "grace_period_ms" (Nat.toDigits 10 gracePeriodMs.toNat) (.grace gracePeriodMs)
  | unknown {name : String} {text : List Char} (hName : name ≠ "dirs" ∧ name ≠ "grace_period_ms")
      (hValue : JsonText .value text) : Means name text .unknown

/-- The section its members give, with the default for each field they do not. -/
def ofItems (items : List Item) : WatchConfig :=
  ⟨(items.findSome? Item.dirs?).getD [], (items.findSome? Item.grace?).getD defaultGracePeriodMs⟩

/-- A field comes twice in the section. -/
def Repeats (items : List Item) (key : String) : Prop :=
  Json.Repeats Item.field? (fun _ _ => False) items key

/-- What is known behind some members. -/
def Known.ofItems (items : List Item) : Known :=
  ⟨items.findSome? Item.dirs?, items.findSome? Item.grace?⟩

/-- A member of the section is added to those before it. -/
theorem adds_member : Adds Means Item.field? (fun _ _ => False) Known.ofItems member := by
  intro before m name colon value rest hNew hMeans hColon hRest
  unfold member
  cases hMeans with
  | @dirs text dirs hDirs =>
    have hList := Json.spells_list (hDirs.items Path.NameText.spells)
    have hField := settles_field Item.field?_eq_dirs hNew (m := .dirs dirs) rfl hColon
      fun gap hGap => hList.settles hGap hRest fun _ => id
    -- what is known of the other field stays
    rw [if_pos rfl, Known.ofItems, findSome?_concat_none Item.grace? rfl]
    exact hField.map (Known.mk · (before.findSome? Item.grace?))
  | grace gracePeriodMs =>
    have hField := settles_field Item.field?_eq_grace hNew (m := .grace gracePeriodMs) rfl hColon
      fun gap hGap => (spells_grace gracePeriodMs).settles hGap hRest fun _ => id
    rw [if_neg (by decide), if_pos rfl, Known.ofItems, findSome?_concat_none Item.dirs? rfl]
    exact hField.map (Known.mk (before.findSome? Item.dirs?))
  | unknown hName hValue =>
    rw [if_neg hName.1, if_neg hName.2, Known.ofItems, findSome?_concat_none Item.dirs? rfl,
      findSome?_concat_none Item.grace? rfl]
    exact settles_unknown hNew rfl (fun _ => id) _ hColon hValue hRest

/-- The section settles to what its members give. -/
theorem settles_readJson {text gap rest : List Char} {items : List Item}
    (h : ObjectText Means true text items) (hGap : Blanks gap) :
    Settles (Repeats items) (ofItems items) rest
      (readJson (gap ++ '\x7b' :: (text ++ rest))) := by
  have hMembers := h.settles adds_member rest [] ((text ++ rest).length + 1) not_repeats_nil
    (by simp; omega)
  exact settles_structure hGap (hMembers.map Known.filled)

end WatchConfig

/-! ## The whole configuration -/

namespace Config

/-- A member of the configuration, by what it gives. -/
inductive Item where
  | watch (items : List WatchConfig.Item)
  | verbose (verbose : UInt8)
  | unknown

/-- The field a member gives. -/
def Item.field? : Item → Option String
  | .watch _ => some "watch"
  | .verbose _ => some "verbose"
  | .unknown => none

def Item.watch? : Item → Option WatchConfig
  | .watch items => some (.ofItems items)
  | _ => none

def Item.verbose? : Item → Option UInt8
  | .verbose found => some found
  | _ => none

/-- A field comes twice inside the value of a member. -/
def Item.Inside : Item → String → Prop
  | .watch items, key => WatchConfig.Repeats items key
  | _, _ => False

theorem Item.field?_eq_watch (m : Item) : m.field? = some "watch" ↔ m.watch?.isSome := by
  cases m <;> simp [field?, watch?]

theorem Item.field?_eq_verbose (m : Item) : m.field? = some "verbose" ↔ m.verbose?.isSome := by
  cases m <;> simp [field?, verbose?]

/-- What the name of a member and the text of its value mean. Under any other name stands any value,
be it an object with fields of these names. -/
inductive Means : String → List Char → Item → Prop where
  | watch {text : List Char} {items : List WatchConfig.Item}
      (hItems : ObjectText WatchConfig.Means true text items) :
      Means "watch" ('\x7b' :: text) (.watch items)
  | verbose (verbose : UInt8) : Means "verbose" (Nat.toDigits 10 verbose.toNat) (.verbose verbose)
  | unknown {name : String} {text : List Char} (hName : name ≠ "watch" ∧ name ≠ "verbose")
      (hValue : JsonText .value text) : Means name text .unknown

/-- The configuration its members give, with the default for each field they do not. -/
def ofItems (items : List Item) : Config :=
  ⟨(items.findSome? Item.watch?).getD {}, (items.findSome? Item.verbose?).getD 0⟩

/-- A field comes twice in the configuration or in its section. -/
def Repeats (items : List Item) (key : String) : Prop :=
  Json.Repeats Item.field? Item.Inside items key

/-- What is known behind some members. -/
def Known.ofItems (items : List Item) : Known :=
  ⟨items.findSome? Item.watch?, items.findSome? Item.verbose?⟩

/-- A member of the configuration is added to those before it. -/
theorem adds_member : Adds Means Item.field? Item.Inside Known.ofItems member := by
  intro before m name colon value rest hNew hMeans hColon hRest
  unfold member
  cases hMeans with
  | @watch text items hItems =>
    have hSection : ∀ gap, Blanks gap → Settles (Item.Inside (.watch items)) (.ofItems items) rest
        (WatchConfig.readJson (gap ++ ('\x7b' :: text ++ rest))) :=
      fun gap hGap => WatchConfig.settles_readJson hItems hGap
    have hField := settles_field Item.field?_eq_watch hNew (m := .watch items) rfl hColon hSection
    rw [if_pos rfl, Known.ofItems, findSome?_concat_none Item.verbose? rfl]
    exact hField.map (Known.mk · (before.findSome? Item.verbose?))
  | verbose verbose =>
    have hField := settles_field Item.field?_eq_verbose hNew (m := .verbose verbose) rfl hColon
      fun gap hGap => (spells_verbose verbose).settles hGap hRest fun _ => id
    rw [if_neg (by decide), if_pos rfl, Known.ofItems, findSome?_concat_none Item.watch? rfl]
    exact hField.map (Known.mk (before.findSome? Item.watch?))
  | unknown hName hValue =>
    rw [if_neg hName.1, if_neg hName.2, Known.ofItems, findSome?_concat_none Item.watch? rfl,
      findSome?_concat_none Item.verbose? rfl]
    exact settles_unknown hNew rfl (fun _ => id) _ hColon hValue hRest

end Config

/-- The text of a configuration: an object of any members, with any blanks around it. -/
inductive ConfigText : String → List Config.Item → Prop where
  | object {before text after : List Char} {items : List Config.Item} (hBefore : Blanks before)
      (hMembers : ObjectText Config.Means true text items) (hAfter : Blanks after) :
      ConfigText (String.ofList (before ++ '\x7b' :: (text ++ after))) items

/-- A text of a configuration is read as what its members give, or refused for a field that comes
twice. -/
theorem ConfigText.read {text : String} {items : List Config.Item} (h : ConfigText text items) :
    (∀ key, ¬ Config.Repeats items key) ∧ Config.read text = .ok (.ofItems items) ∨
      ∃ key position, Config.Repeats items key ∧
        Config.read text = .error ⟨.duplicateField key, position⟩ := by
  obtain @⟨before, text, after, items, hBefore, hMembers, hAfter⟩ := h
  have hObject := hMembers.settles Config.adds_member after [] ((text ++ after).length + 1)
    not_repeats_nil (by simp; omega)
  have hSettles : Settles (Config.Repeats items) (Config.ofItems items) after
      (readStructure "struct Config" Config.readObject Config.readFields
        (before ++ '\x7b' :: (text ++ after))) :=
    settles_structure hBefore (hObject.map Config.Known.filled)
  unfold Config.read Config.readAll
  rw [String.toList_ofList]
  generalize readStructure "struct Config" Config.readObject Config.readFields
    (before ++ '\x7b' :: (text ++ after)) = found at hSettles
  cases hSettles with
  | read hOnce =>
    -- nothing but blanks is left behind the object
    refine .inl ⟨hOnce, ?_⟩
    simp only [bind, Except.bind, pure, Except.pure, skipBlanks_eq_nil hAfter, Except.mapError]
  | refused unread hTwice => exact .inr ⟨_, _, hTwice, rfl⟩

/-- **A configuration may be given in part**: its members in any order, among others that nobody
knows, with blanks and escapes wherever they may be. It is read as the configuration whose fields
have the values that are given and the defaults where none is; if a field comes twice in one object,
it is refused as a text that cannot be read. -/
theorem configurations_in_part {text : String} {items : List Config.Item}
    (h : ConfigText text items) :
    ((∀ key, ¬ Config.Repeats items key) → Config.read text = .ok (.ofItems items)) ∧
      ((∃ key, Config.Repeats items key) → ∃ key position, Config.Repeats items key ∧
        Config.read text = .error ⟨.duplicateField key, position⟩ ∧
        ∀ (d : Disk) (path : Path), d.readText path = .ok text →
          Config.load d path = .error (.parse ⟨.duplicateField key, position⟩)) := by
  rcases h.read with ⟨hOnce, hRead⟩ | ⟨key, position, hTwice, hRead⟩
  · exact ⟨fun _ => hRead, fun ⟨key, hTwice⟩ => absurd hTwice (hOnce key)⟩
  · refine ⟨fun hOnce => absurd hTwice (hOnce key), fun _ =>
      ⟨key, position, hTwice, hRead, fun d path hText => ?_⟩⟩
    rw [Config.load, Disk.fileSystem_readText, hText]
    simp only [Except.mapError, bind, Except.bind, hRead]

/-- A section whose directory comes behind its grace period, both among members that nobody knows:
half a pair as an escape in one, the whole pair as the name of another. -/
def crowded : String :=
  "\x7b\"x\":[null,\x7b\"a\":\"\\ud800\"\x7d,-1.5E+3],\"watch\" :\x7b\"grace_period_ms\":5," ++
    "\"\\uD834\\uDD1E\":true , \"dirs\":[\"\\/a\" ]\x7d\x7d\n"

theorem crowded_text : ConfigText crowded
    [.unknown, .watch [.grace 5, .unknown, .dirs [⟨"/a"⟩]]] := by
  have hBlank : Blanks [' '] := by simp [Blanks, isBlank]
  have hEnd : Blanks ['\n'] := by simp [Blanks, isBlank]
  have hFirst := Opening.first blanks_nil
  have hNext := Opening.next blanks_nil blanks_nil
  have hColon := ColonText.colon blanks_nil blanks_nil
  -- the value of the first member
  have hKey : RawText ['a', '\x22'] := .plain (by decide) (by decide) (by decide) .close
  have hHalf : RawText ['\\', 'u', 'd', '8', '0', '0', '\x22'] :=
    .unit (show hex4? 'd' '8' '0' '0' = some 0xD800 by decide) .close
  have hObject := JsonText.object <| .member hFirst hKey hColon (.string hHalf)
    (.objectEnd false blanks_nil)
  have hNumber : UnsignedText (['1'] ++ (['.', '5'] ++ ['E', '+', '3'])) :=
    .number (.digits (by decide) (digits_one (by decide))) (.digits (digits_one (by decide)))
      (.digits (.inr rfl) (.inr (.inl rfl)) (digits_one (by decide)))
  have hList := JsonText.list <| .item hFirst .nullWord <| .item hNext hObject <|
    .item hNext (.negative hNumber) (.listEnd false blanks_nil)
  have hUnknown : "x" ≠ "watch" ∧ "x" ≠ "verbose" := by decide
  -- the section
  have hPair : StringText "\\uD834\\uDD1E\"".toList "𝄞".toList :=
    .pair (show hex4? 'D' '8' '3' '4' = some 0xD834 by decide)
      (show hex4? 'D' 'D' '1' 'E' = some 0xDD1E by decide) (by decide) (by decide) (by decide)
      .close
  have hName : "𝄞" ≠ "dirs" ∧ "𝄞" ≠ "grace_period_ms" := by decide
  have hDir : Path.NameText ['\x22', '\\', '/', 'a', '\x22'] ⟨"/a"⟩ :=
    .string <| .letter (show letterEscape? '/' = some '/' by rfl) <|
      .plain (by decide) (by decide) (by decide) .close
  have hDirs := WatchConfig.Means.dirs <| .item hFirst hDir (.close false hBlank)
  have hWatch := Config.Means.watch <|
    .member hFirst (stringText_plain (by decide)) hColon (.grace 5) <|
    .member hNext hPair hColon (.unknown hName .trueWord) <|
    .member (.next hBlank hBlank) (stringText_plain (by decide)) hColon hDirs <|
    .close false blanks_nil
  have hMembers := ObjectText.member hFirst (stringText_plain (by decide)) hColon
    (.unknown hUnknown hList) <| .member hNext (stringText_plain (by decide))
    (.colon hBlank blanks_nil) hWatch <| .close false blanks_nil
  exact .object blanks_nil hMembers hEnd

/-- A section whose directories come twice, once with an escape in their name. -/
def doubled : String :=
  "\x7b\"watch\":\x7b\"dirs\":[],\"\\u0064irs\":[\"/a\"]\x7d\x7d"

theorem doubled_text : ConfigText doubled [.watch [.dirs [], .dirs [⟨"/a"⟩]]] := by
  have hFirst := Opening.first blanks_nil
  have hNext := Opening.next blanks_nil blanks_nil
  have hColon := ColonText.colon blanks_nil blanks_nil
  have hEscaped : StringText "\\u0064irs\"".toList "dirs".toList :=
    .unit (show hex4? '0' '0' '6' '4' = some 'd'.toNat by decide) <|
      .plain (by decide) (by decide) (by decide) <| .plain (by decide) (by decide) (by decide) <|
      .plain (by decide) (by decide) (by decide) .close
  have hDir : Path.NameText ['\x22', '/', 'a', '\x22'] ⟨"/a"⟩ :=
    .string <| .plain (by decide) (by decide) (by decide) <|
      .plain (by decide) (by decide) (by decide) .close
  have hNone := WatchConfig.Means.dirs (.close true blanks_nil)
  have hOne := WatchConfig.Means.dirs <| .item hFirst hDir (.close false blanks_nil)
  have hWatch := Config.Means.watch <|
    .member hFirst (stringText_plain (by decide)) hColon hNone <|
    .member hNext hEscaped hColon hOne <| .close false blanks_nil
  have hMembers := ObjectText.member hFirst (stringText_plain (by decide)) hColon hWatch <|
    .close false blanks_nil
  exact .object blanks_nil hMembers blanks_nil

/-- The first is read, with its fields in either order; the second is refused. -/
theorem crowded_is_read_doubled_refused :
    (ConfigText crowded [.unknown, .watch [.grace 5, .unknown, .dirs [⟨"/a"⟩]]] ∧
      Config.read crowded = .ok ⟨⟨[⟨"/a"⟩], 5⟩, 0⟩) ∧
      ConfigText doubled [.watch [.dirs [], .dirs [⟨"/a"⟩]]] ∧
        ∃ key position, Config.Repeats [.watch [.dirs [], .dirs [⟨"/a"⟩]]] key ∧
          Config.read doubled = .error ⟨.duplicateField key, position⟩ ∧
          ∀ (d : Disk) (path : Path), d.readText path = .ok doubled →
            Config.load d path = .error (.parse ⟨.duplicateField key, position⟩) := by
  refine ⟨⟨crowded_text, (configurations_in_part crowded_text).1 fun key hTwice => ?_⟩,
    doubled_text, (configurations_in_part doubled_text).2 ⟨"dirs", ?_⟩⟩
  · have hTop : ["watch"].Nodup := by decide
    have hSection : ["grace_period_ms", "dirs"].Nodup := by decide
    rw [List.nodup_iff_forall_not_duplicate] at hTop hSection
    rcases hTwice with hHere | ⟨m, hMem, hInside⟩
    · exact hTop key hHere
    · obtain rfl | rfl : m = .unknown ∨
          m = .watch [.grace 5, .unknown, .dirs [⟨"/a"⟩]] := by simpa using hMem
      · exact hInside
      · rcases hInside with hHere | ⟨_, -, hNone⟩
        · exact hSection key hHere
        · exact hNone
  · exact .inr ⟨_, List.mem_cons_self, .inl List.mem_cons_self.duplicate_cons_self⟩

end TreeWatch
