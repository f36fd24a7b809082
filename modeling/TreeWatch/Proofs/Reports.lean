import TreeWatch.Change
import TreeWatch.Proofs.Alterations

/-!
# Reports of alterations

An alteration below the roots is reported in events whose paths start with the spelling of a root
(`Spells`); a place that no root is above is not reported (`Unseen`). A renaming is reported in one
event or in two, or in the half that is seen. Whichever it is, the changes of the events say that
the place that is given up disappeared, and after that that the place that is taken appeared.

Main results:
  * `Event.definite`: what the events of reports say does not depend on the tree
  * `Reports.announced`: what they say
-/

namespace TreeWatch

variable {roots : List Path} {place : Place} {path : ByteString} {kind : ChangeKind}

/-! ## Paths of places -/

/-- A path of a place below a root, spelled as the root and the names that follow. -/
def Spells (roots : List Path) (place : Place) (path : ByteString) : Prop :=
  ∃ root ∈ roots, ∃ start names, root.Leads start ∧ names ≠ [] ∧
    place = start.map .text ++ names ∧ path = names.foldl ByteString.child root.native

/-- A place below none of the roots. -/
def Unseen (roots : List Path) (place : Place) : Prop :=
  ∀ path, ¬ Spells roots place path

/-- A root is at these names or above. -/
def Rooted (roots : List Path) (names : List String) : Prop :=
  ∃ root ∈ roots, ∃ start, root.Leads start ∧ start <+: names

/-- The place is not above a root, and none is there. -/
def Spared (roots : List Path) (place : Place) : Prop :=
  ∀ root ∈ roots, ∀ start, root.Leads start → ¬ place <+: start.map .text

/-- What stands at the roots and above is left alone. -/
def Alteration.Spares (a : Alteration) (roots : List Path) : Prop :=
  ∀ place, place ∈ a.gone ∨ place ∈ a.come → Spared roots place

/-- The events that an alteration is reported in. -/
inductive Reports (roots : List Path) : Alteration → List Event → Prop
  | create {dir : Place} {name : Name} {entry : Entry} {path : ByteString}
      (hSeen : Spells roots (dir ++ [name]) path) :
      Reports roots (.create dir name entry) [⟨.create, [path]⟩]
  | create_unseen {dir : Place} {name : Name} {entry : Entry}
      (hUnseen : Unseen roots (dir ++ [name])) : Reports roots (.create dir name entry) []
  | remove {place : Place} {path : ByteString} (hSeen : Spells roots place path) :
      Reports roots (.remove place) [⟨.remove, [path]⟩]
  | remove_unseen {place : Place} (hUnseen : Unseen roots place) :
      Reports roots (.remove place) []
  | rename_both {source dir : Place} {name : Name} {old new : ByteString}
      (hSource : Spells roots source old) (hTarget : Spells roots (dir ++ [name]) new) :
      Reports roots (.rename source dir name) [⟨.rename .both, [old, new]⟩]
  | rename_apart {source dir : Place} {name : Name} {old new : ByteString}
      (hSource : Spells roots source old) (hTarget : Spells roots (dir ++ [name]) new) :
      Reports roots (.rename source dir name)
        [⟨.rename .source, [old]⟩, ⟨.rename .target, [new]⟩]
  | move_in {source dir : Place} {name : Name} {new : ByteString}
      (hSource : Unseen roots source) (hTarget : Spells roots (dir ++ [name]) new) :
      Reports roots (.rename source dir name) [⟨.rename .target, [new]⟩]
  | move_out {source dir : Place} {name : Name} {old : ByteString}
      (hSource : Spells roots source old) (hTarget : Unseen roots (dir ++ [name])) :
      Reports roots (.rename source dir name) [⟨.rename .source, [old]⟩]
  | rename_unseen {source dir : Place} {name : Name} (hSource : Unseen roots source)
      (hTarget : Unseen roots (dir ++ [name])) : Reports roots (.rename source dir name) []

/-! ## What events say -/

/-- The changes of an event, on a disk that is empty. -/
def Event.changes (event : Event) : List Change :=
  (classify ⟨[], []⟩ event).1

/-- The changes of an event are the same whatever the tree is. -/
def Event.Definite (event : Event) : Prop :=
  ∀ d, (classify d event).1 = event.changes

/-- The change of a path, if it is text. -/
def changeOf (kind : ChangeKind) (path : ByteString) : List Change :=
  path.text?.toList.map fun s => ⟨⟨s⟩, kind⟩

theorem classifyFrom_cons (d : Disk) (kind : EventKind) (index : Nat) (path : ByteString)
    (rest : List ByteString) : (classifyFrom d kind index (path :: rest)).1 =
      (path.text?.toList.map fun s => ⟨⟨s⟩, kind.change d ⟨s⟩ index⟩) ++
        (classifyFrom d kind (index + 1) rest).1 := by
  cases path with
  | text s => rfl
  | raw bytes notText => rfl

/-- Only a renaming without a direction is looked up in the tree. -/
theorem Event.definite {event : Event} (hAny : event.kind ≠ .rename .any)
    (hOther : event.kind ≠ .rename .other) : event.Definite := by
  have hChange (d : Disk) (p : Path) (index : Nat) :
      event.kind.change d p index = event.kind.change ⟨[], []⟩ p index := by
    unfold EventKind.change
    split <;> first | rfl | contradiction
  -- the position of a path counts, so the index is part of the induction
  have hFrom (d : Disk) (paths : List ByteString) : ∀ index,
      (classifyFrom d event.kind index paths).1 =
        (classifyFrom ⟨[], []⟩ event.kind index paths).1 := by
    induction paths with
    | nil => exact fun index => rfl
    | cons path rest ih =>
      intro index
      rw [classifyFrom_cons, classifyFrom_cons, ih (index + 1)]
      simp only [hChange d]
  exact fun d => hFrom d event.paths 0

theorem Reports.definite {a : Alteration} {events : List Event} (h : Reports roots a events) :
    ∀ event ∈ events, event.Definite := by
  cases h <;> simp [Event.definite]

theorem Event.changes_single (said : EventKind) (path : ByteString) :
    (⟨said, [path]⟩ : Event).changes =
      path.text?.toList.map fun s => ⟨⟨s⟩, said.change ⟨[], []⟩ ⟨s⟩ 0⟩ := by
  show (classifyFrom _ _ _ _).1 = _
  rw [classifyFrom_cons, classifyFrom, List.append_nil]

theorem Event.changes_pair (said : EventKind) (first second : ByteString) :
    (⟨said, [first, second]⟩ : Event).changes =
      (first.text?.toList.map fun s => ⟨⟨s⟩, said.change ⟨[], []⟩ ⟨s⟩ 0⟩) ++
        second.text?.toList.map fun s => ⟨⟨s⟩, said.change ⟨[], []⟩ ⟨s⟩ 1⟩ := by
  show (classifyFrom _ _ _ _).1 = _
  rw [classifyFrom_cons, classifyFrom_cons, classifyFrom, List.append_nil]

/-! ## What reports say -/

/-- A change of a path that is spelled from a root and follows these names. -/
structure Told (roots : List Path) (change : Change) (names : List String) : Prop where
  spelled : ∃ root ∈ roots, ∃ start texts, root.Leads start ∧ names = start ++ texts ∧
    texts ≠ [] ∧ change.path = root.under texts ∧
      ∀ text ∈ texts, IsName text ∧ 0 ∉ (ByteString.text text).bytes
  spared : Spared roots (names.map .text)

/-- The one change of a place, or none if nobody could tell: no root is above it, or its names are
no text. -/
def Announced (roots : List Path) (kind : ChangeKind) (place : Option Place)
    (changes : List Change) : Prop :=
  (∃ change names, changes = [change] ∧ change.kind = kind ∧
      names.map ByteString.text ∈ place ∧ Told roots change names) ∨
    (changes = [] ∧ ∀ p ∈ place, ∀ names, Rooted roots names → ¬ p <+: names.map .text)

theorem announced_none : Announced roots kind none [] :=
  Or.inr ⟨rfl, fun p hp => (Option.not_mem_none p hp).elim⟩

theorem announced_seen (hSeen : Spells roots place path) (hSpared : Spared roots place)
    (hValid : ∀ name ∈ place, Name.Valid name) :
    Announced roots kind (some place) (changeOf kind path) := by
  obtain ⟨root, hRoot, start, names, hLeads, hNames, rfl, rfl⟩ := hSeen
  cases hText : (names.foldl ByteString.child root.native).text? with
  | none =>
    refine Or.inr ⟨by simp [changeOf, hText], fun p hp others _ hBelow => ?_⟩
    cases hp
    -- the names of something that is text are text
    obtain ⟨texts, -, hTexts⟩ := List.prefix_map_iff.mp hBelow
    obtain ⟨front, back, -, -, hBack⟩ := List.append_eq_map_iff.mp hTexts
    rw [← hBack, ByteString.foldl_child_text] at hText
    cases hText
  | some s =>
    -- the path is text, so the change says where the place is
    have hPath : names.foldl ByteString.child root.native = (⟨s⟩ : Path).native := by
      cases hFold : names.foldl ByteString.child root.native with
      | text t =>
        rw [hFold] at hText
        exact congrArg ByteString.text (Option.some.inj hText)
      | raw bytes notText =>
        rw [hFold] at hText
        cases hText
    obtain ⟨texts, rfl, hUnder⟩ := ByteString.text_of_foldl_child hPath
    have hTexts : texts ≠ [] := fun hNil => hNames (by rw [hNil, List.map_nil])
    have hPlace : start.map ByteString.text ++ texts.map .text = (start ++ texts).map .text :=
      List.map_append.symm
    have hChange : changeOf kind ((texts.map .text).foldl ByteString.child root.native) =
        [⟨⟨s⟩, kind⟩] := by
      simp [changeOf, hText]
    refine Or.inl ⟨⟨⟨s⟩, kind⟩, start ++ texts, hChange, rfl, hPlace ▸ rfl, ?_, ?_⟩
    · refine ⟨root, hRoot, start, texts, hLeads, rfl, hTexts, hUnder, fun text hMem => ?_⟩
      have hName := hValid (.text text) (List.mem_append_right _ (List.mem_map_of_mem hMem))
      exact ⟨hName.isName, hName.noNul⟩
    · exact hPlace ▸ hSpared

theorem announced_unseen (hUnseen : Unseen roots place) (hSpared : Spared roots place) :
    Announced roots kind (some place) [] := by
  refine Or.inr ⟨rfl, fun p hp names hRooted hBelow => ?_⟩
  cases hp
  obtain ⟨root, hRoot, start, hLeads, hStart⟩ := hRooted
  -- the place and the root are on one way down, and the root is not below the place
  have hNotAbove := hSpared root hRoot start hLeads
  rcases List.prefix_or_prefix_of_prefix hBelow (hStart.map ByteString.text) with hAbove | hIn
  · exact hNotAbove hAbove
  · obtain ⟨more, rfl⟩ := hIn
    refine hUnseen _ ⟨root, hRoot, start, more, hLeads, ?_, rfl, rfl⟩
    rintro rfl
    rw [List.append_nil] at hNotAbove
    exact hNotAbove List.prefix_rfl

/-- **What reports say**: that a place was given up, and after that that one was taken. -/
theorem Reports.announced {a : Alteration} {events : List Event} (h : Reports roots a events)
    (hSpares : a.Spares roots)
    (hValid : ∀ place, place ∈ a.gone ∨ place ∈ a.come → ∀ name ∈ place, Name.Valid name) :
    ∃ left right, events.flatMap Event.changes = left ++ right ∧
      Announced roots .removed a.gone left ∧ Announced roots .created a.come right := by
  have hGone {place : Place} {path : ByteString} (hPlace : place ∈ a.gone)
      (hSeen : Spells roots place path) :
      Announced roots .removed (some place) (changeOf .removed path) :=
    announced_seen hSeen (hSpares place (Or.inl hPlace)) (hValid place (Or.inl hPlace))
  have hCome {place : Place} {path : ByteString} (hPlace : place ∈ a.come)
      (hSeen : Spells roots place path) :
      Announced roots .created (some place) (changeOf .created path) :=
    announced_seen hSeen (hSpares place (Or.inr hPlace)) (hValid place (Or.inr hPlace))
  have hHidden {place : Place} (kind : ChangeKind) (hPlace : place ∈ a.gone ∨ place ∈ a.come)
      (hUnseen : Unseen roots place) : Announced roots kind (some place) [] :=
    announced_unseen hUnseen (hSpares place hPlace)
  -- one event, two events or none: the removal always comes first
  cases h with
  | create hSeen =>
    refine ⟨[], _, ?_, announced_none, hCome rfl hSeen⟩
    simp [Event.changes_single, changeOf, EventKind.change]
  | create_unseen hUnseen => exact ⟨[], [], rfl, announced_none, hHidden _ (Or.inr rfl) hUnseen⟩
  | remove hSeen =>
    refine ⟨_, [], ?_, hGone rfl hSeen, announced_none⟩
    simp [Event.changes_single, changeOf, EventKind.change]
  | remove_unseen hUnseen => exact ⟨[], [], rfl, hHidden _ (Or.inl rfl) hUnseen, announced_none⟩
  | rename_both hSource hTarget =>
    refine ⟨_, _, ?_, hGone rfl hSource, hCome rfl hTarget⟩
    simp [Event.changes_pair, changeOf, EventKind.change]
  | rename_apart hSource hTarget =>
    refine ⟨_, _, ?_, hGone rfl hSource, hCome rfl hTarget⟩
    simp [Event.changes_single, changeOf, EventKind.change]
  | move_in hSource hTarget =>
    refine ⟨[], _, ?_, hHidden _ (Or.inl rfl) hSource, hCome rfl hTarget⟩
    simp [Event.changes_single, changeOf, EventKind.change]
  | move_out hSource hTarget =>
    refine ⟨_, [], ?_, hGone rfl hSource, hHidden _ (Or.inr rfl) hTarget⟩
    simp [Event.changes_single, changeOf, EventKind.change]
  | rename_unseen hSource hTarget =>
    exact ⟨[], [], rfl, hHidden _ (Or.inl rfl) hSource, hHidden _ (Or.inr rfl) hTarget⟩

end TreeWatch
