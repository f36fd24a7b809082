import TreeWatch.Proofs.Reports
import TreeWatch.Proofs.Tracking

/-!
# Subscriptions and the changes that are still to be handled

Between an alteration of the tree and the handling of its report the subscriptions lag behind, and
other alterations may come in between. What is always the case (`Tracked`) is said path by path:
a path that is subscribed without being there has a removal coming; one that is there is
subscribed, or has a creation coming that no removal follows; and a creation whose path is gone
already is followed by the removal of that path or of one above, so that whatever is found in its
stead does not stay.

Main results:
  * `Tracked.altered`: the tree changes, and the report is queued
  * `Tracked.changes_handled`: changes are handled, whatever the tree is by then
-/

namespace TreeWatch

variable {roots : List Path} {d d' : Disk} {r r' : Registrar} {change : Change}
  {pending rest : List Change} {p q : Path} {names others : List String}

/-! ## Names without counter files -/

/-- Names below a root that are not those of counter files. -/
def Clean (roots : List Path) (names : List String) : Prop :=
  ∃ root ∈ roots, ∃ start texts, root.Leads start ∧ names = start ++ texts ∧
    ∀ text ∈ texts, isCounterArtifact ⟨text⟩ = false

/-- The system takes the paths of all directories and regular files below the roots. -/
def Fits (roots : List Path) (d : Disk) : Prop :=
  ∀ root ∈ roots, ∀ start : List String, root.Leads start → d.InReach (start.map .text) root

theorem Clean.rooted (h : Clean roots names) : Rooted roots names := by
  obtain ⟨root, hRoot, start, texts, hLeads, rfl, -⟩ := h
  exact ⟨root, hRoot, start, hLeads, List.prefix_append start texts⟩

theorem IsName.components {name : String} (h : IsName name) :
    (⟨name⟩ : Path).components = [.name name] := by
  unfold Path.components Path.componentsOf
  rw [Pieces.split_of_not_mem h.noSlash]
  have hPiece := h.piece
  dsimp only
  split
  · next hEmpty =>
    rw [hEmpty] at hPiece
    cases hPiece
  · split
    · next hHere =>
      rw [hHere] at hPiece
      cases hPiece
    · simp [hPiece]

/-- Whether a path is that of a counter file is settled by its last name. -/
theorem Path.Leads.isCounterArtifact {name : String} (h : p.Leads (names ++ [name]))
    (hName : IsName name) : isCounterArtifact p = TreeWatch.isCounterArtifact ⟨name⟩ := by
  have hLast : p.fileName? = some name := by
    unfold Path.fileName?
    rw [h, List.map_append, List.map_singleton, ← List.cons_append, List.getLast?_concat]
  have hAlone : (⟨name⟩ : Path).fileName? = some name := by
    unfold Path.fileName?
    rw [hName.components]
    rfl
  unfold TreeWatch.isCounterArtifact
  rw [hLast, hAlone]

theorem Told.leads (h : Told roots change names) : change.path.Leads names := by
  obtain ⟨root, -, start, texts, hLeads, rfl, -, hPath, hTexts⟩ := h.spelled
  rw [hPath]
  exact hLeads.under fun text hText => (hTexts text hText).1

theorem Told.isName {name : String} (h : Told roots change (names ++ [name])) : IsName name := by
  obtain ⟨root, -, start, texts, -, hNames, hSome, -, hTexts⟩ := h.spelled
  obtain ⟨front, last, rfl⟩ := (List.eq_nil_or_concat texts).resolve_left hSome
  rw [List.concat_eq_append, ← List.append_assoc] at hNames
  obtain ⟨-, hLast⟩ := List.append_inj' hNames rfl
  cases hLast
  exact (hTexts name (by simp)).1

/-- A change above a clean path is one of a clean path, and not passed over. -/
theorem Told.clean (h : Told roots change names) (hBelow : names <+: others)
    (hClean : Clean roots others) :
    Clean roots names ∧ isCounterArtifact change.path = false := by
  obtain ⟨root, hRoot, start, texts, hLeads, rfl, hTexts⟩ := hClean
  have hNotAbove : ¬ names <+: start := fun hAbove =>
    h.spared root hRoot start hLeads (hAbove.map ByteString.text)
  have hStart : start <+: names :=
    (List.prefix_or_prefix_of_prefix hBelow (List.prefix_append start texts)).resolve_left hNotAbove
  obtain ⟨front, rfl⟩ := hStart
  have hFront : front <+: texts := (List.prefix_append_right_inj start).mp hBelow
  have hFine : ∀ text ∈ front, isCounterArtifact ⟨text⟩ = false := fun text hText =>
    hTexts text (hFront.subset hText)
  refine ⟨⟨root, hRoot, start, front, hLeads, rfl, hFine⟩, ?_⟩
  -- the change is below the root, and so its last name is one of the names that are clean
  rcases List.eq_nil_or_concat front with rfl | ⟨inner, last, rfl⟩
  · rw [List.append_nil] at hNotAbove
    exact absurd List.prefix_rfl hNotAbove
  · rw [List.concat_eq_append, ← List.append_assoc] at h
    rw [h.leads.isCounterArtifact h.isName]
    exact hFine last (by simp)

/-! ## One change -/

/-- What handling a change does to the subscriptions. -/
structure Effect (d : Disk) (r r' : Registrar) (change : Change) (names : List String) : Prop where
  willing : r'.engine.Willing
  grows : ∀ q, r'.isSubscribed q = true →
    r.isSubscribed q = true ∨ change.kind = .created ∧ ∃ texts, q.Leads (names ++ texts)
  keeps : ∀ q, r.isSubscribed q = true →
    r'.isSubscribed q = true ∨ change.kind = .removed ∧ q.startsWith change.path = true
  drops : change.kind = .removed → isCounterArtifact change.path = false →
    ∀ q, r'.isSubscribed q = true → q.startsWith change.path = false
  finds : change.kind = .created → isCounterArtifact change.path = false →
    ∀ e, d.get? (names.map .text) = some e → ∀ q others, q.Leads others → names <+: others →
      (r'.isSubscribed q = true ↔ r.isSubscribed q = true ∨ d.Watched others)

/-- Tracking a path that is there subscribes what can be watched there and below. -/
theorem Told.track_iff {c : Coalescer} {e : Entry} (hTold : Told roots change names)
    (h : c.registrar.engine.Willing) (hTree : d.WellFormed) (hFits : Fits roots d)
    (hUsable : ∀ root ∈ roots, root.Usable) (hEntry : d.get? (names.map .text) = some e)
    (hOthers : q.Leads others) (hBelow : names <+: others) :
    ((c.track d change.path).1.getD c).registrar.isSubscribed q = true ↔
      c.registrar.isSubscribed q = true ∨ d.Watched others := by
  obtain ⟨root, hRoot, start, texts, hLeads, rfl, hTexts, hPath, hNames⟩ := hTold.spelled
  have hNoNul : 0 ∉ (root.under texts).native.bytes :=
    Path.noNul_under (hUsable root hRoot).noNul fun text hText => (hNames text hText).2
  have hReach : d.InReach ((start ++ texts).map .text) (root.under texts) :=
    (hFits root hRoot start hLeads).under
  obtain ⟨front, last, rfl⟩ := (List.eq_nil_or_concat texts).resolve_left hTexts
  rw [List.concat_eq_append] at hPath hNoNul hReach hEntry hNames hBelow
  rw [Path.under_append] at hPath hNoNul hReach
  rw [← List.append_assoc] at hReach hEntry hBelow
  have hFront : (root.under front).Leads (start ++ front) :=
    hLeads.under fun text hText => (hNames text (List.mem_append_left _ hText)).1
  have hLast : IsName last := (hNames last (by simp)).1
  rw [hPath]
  refine (Coalescer.track_present h hTree hFront hLast hNoNul hReach hEntry hOthers).trans ?_
  rw [and_iff_right hBelow]

/-- **One change** has its effect, whatever was changed in the meantime. -/
theorem Told.effect {c : Coalescer} (hTold : Told roots change names)
    (h : c.registrar.engine.Willing) (hTree : d.WellFormed) (hFits : Fits roots d)
    (hUsable : ∀ root ∈ roots, root.Usable)
    (hKind : change.kind = .created ∨ change.kind = .removed) (now : Nat) :
    Effect d c.registrar (c.handleChange d now change).1.registrar change names := by
  cases hArtifact : isCounterArtifact change.path with
  | true =>
    rw [Coalescer.handleChange_registrar h, if_pos hArtifact]
    refine ⟨h, fun q => Or.inl, fun q => Or.inl, fun _ hOther => ?_, fun _ hOther => ?_⟩
    · cases hArtifact.symm.trans hOther
    · cases hArtifact.symm.trans hOther
  | false =>
    rcases hKind with hCreated | hRemoved
    · rw [Coalescer.handleChange_track h hCreated hArtifact]
      obtain ⟨new, hGrown, hNew⟩ := Coalescer.track_grown h hTree hTold.leads
      refine ⟨hGrown.willing, fun q hq => ?_, fun q hq => ?_, fun hOther => ?_, fun _ _ e hEntry =>
        fun q others => hTold.track_iff h hTree hFits hUsable hEntry⟩
      · exact ((hGrown.holds q).mp hq).imp_right fun hIn => ⟨hCreated, hNew q hIn⟩
      · exact Or.inl ((hGrown.holds q).mpr (Or.inl hq))
      · cases hCreated.symm.trans hOther
    · obtain ⟨hWilling, hHolds⟩ :=
        @Coalescer.handleChange_removed c d now change h hRemoved hArtifact
      refine ⟨hWilling, fun q hq => Or.inl ((hHolds q).mp hq).1, fun q hq => ?_,
        fun _ _ q hq => ((hHolds q).mp hq).2, fun hOther => ?_⟩
      · cases hBelow : q.startsWith change.path with
        | true => exact Or.inr ⟨hRemoved, rfl⟩
        | false => exact Or.inl ((hHolds q).mpr ⟨hq, hBelow⟩)
      · cases hRemoved.symm.trans hOther

/-! ## What is coming -/

/-- A removal of the path, or of one above, is coming. -/
def Doomed (pending : List Change) (p : Path) : Prop :=
  ∃ change ∈ pending, change.kind = .removed ∧ p.startsWith change.path = true

/-- A creation of the path, or of one above, is coming, and no removal after it. -/
def Expected (pending : List Change) (p : Path) : Prop :=
  ∃ front change back, pending = front ++ change :: back ∧ change.kind = .created ∧
    p.startsWith change.path = true ∧ ¬ Doomed back p

theorem doomed_append {front back : List Change} :
    Doomed (front ++ back) p ↔ Doomed front p ∨ Doomed back p := by
  unfold Doomed
  constructor
  · rintro ⟨change, hChange, hRest⟩
    exact (List.mem_append.mp hChange).imp (⟨change, ·, hRest⟩) (⟨change, ·, hRest⟩)
  · rintro (⟨change, hChange, hRest⟩ | ⟨change, hChange, hRest⟩)
    · exact ⟨change, List.mem_append_left _ hChange, hRest⟩
    · exact ⟨change, List.mem_append_right _ hChange, hRest⟩

/-- What goes with a path goes with all that lies below it. -/
theorem Doomed.below (h : Doomed pending p) (hBelow : q.startsWith p = true) :
    Doomed pending q := by
  obtain ⟨change, hChange, hKind, hAbove⟩ := h
  refine ⟨change, hChange, hKind, ?_⟩
  rw [Path.startsWith_iff] at hAbove hBelow ⊢
  exact hAbove.trans hBelow

theorem Doomed.tail (h : Doomed (change :: rest) p)
    (hOther : change.kind = .removed → p.startsWith change.path = false) : Doomed rest p := by
  obtain ⟨other, hMem, hKind, hAbove⟩ := h
  rcases List.mem_cons.mp hMem with rfl | hMem
  · cases (hOther hKind).symm.trans hAbove
  · exact ⟨other, hMem, hKind, hAbove⟩

/-! ## The invariant -/

/-- The subscriptions, with what is coming, are those of the tree. -/
structure Tracked (roots : List Path) (d : Disk) (r : Registrar) (pending : List Change) :
    Prop where
  willing : r.engine.Willing
  usable : ∀ root ∈ roots, root.Usable
  told : ∀ change ∈ pending, (change.kind = .created ∨ change.kind = .removed) ∧
    ∃ names, Told roots change names
  rooted : ∀ q, r.isSubscribed q = true → ∃ names, q.Leads names ∧ Rooted roots names
  /-- What is not there goes. -/
  gone : ∀ p names, p.Leads names → Clean roots names → r.isSubscribed p = true →
    ¬ d.Watched names → Doomed pending p
  /-- What is there stays, or comes. -/
  there : ∀ p names, p.Leads names → Clean roots names → d.Watched names →
    Expected pending p ∨ r.isSubscribed p = true ∧ ¬ Doomed pending p
  /-- What came and went goes. -/
  stale : ∀ front change back names, pending = front ++ change :: back →
    change.kind = .created → change.path.Leads names → Clean roots names →
      d.get? (names.map .text) = none → Doomed back change.path

theorem Told.rooted (h : Told roots change names) {texts : List String} :
    Rooted roots (names ++ texts) := by
  obtain ⟨root, hRoot, start, own, hLeads, rfl, -⟩ := h.spelled
  refine ⟨root, hRoot, start, hLeads, ?_⟩
  rw [List.append_assoc]
  exact List.prefix_append start _

/-! ## The first change is handled -/

theorem Disk.Watched.above (hTree : d.WellFormed) (h : d.Watched others)
    (hAbove : names <+: others) : ∃ e, d.get? (names.map .text) = some e := by
  obtain ⟨e, hEntry, -⟩ := h
  obtain ⟨texts, rfl⟩ := hAbove
  rw [List.map_append] at hEntry
  by_cases hTexts : texts.map ByteString.text = []
  · rw [hTexts, List.append_nil] at hEntry
    exact ⟨e, hEntry⟩
  · exact ⟨.dir, hTree.ancestor hTexts hEntry⟩

theorem Tracked.gone_handled (h : Tracked roots d r (change :: rest))
    (hTold : Told roots change names) (hEffect : Effect d r r' change names)
    (hLeads : p.Leads others) (hClean : Clean roots others) (hp : r'.isSubscribed p = true)
    (hNotThere : ¬ d.Watched others) : Doomed rest p := by
  -- the removal that was coming is not the one that was handled: that would have dropped the path
  have hOlder (hBefore : r.isSubscribed p = true) : Doomed rest p := by
    refine (h.gone p others hLeads hClean hBefore hNotThere).tail fun hRemoved => ?_
    cases hAbove : p.startsWith change.path with
    | false => rfl
    | true =>
      have hBelow := (hLeads.startsWith_iff hTold.leads).mp hAbove
      have hDropped := hEffect.drops hRemoved (hTold.clean hBelow hClean).2 p hp
      exact hAbove.symm.trans hDropped
  rcases hEffect.grows p hp with hBefore | ⟨hCreated, texts, hTexts⟩
  · exact hOlder hBefore
  -- the path was found below the change just handled
  · cases hLeads.inj hTexts
    have hBelow := List.prefix_append names texts
    obtain ⟨hCleanChange, hNoArtifact⟩ := hTold.clean hBelow hClean
    cases hEntry : d.get? (names.map .text) with
    | some e =>
      -- what is found where something is, is there
      have hFound := hEffect.finds hCreated hNoArtifact e hEntry p _ hLeads hBelow
      exact hOlder ((hFound.mp hp).resolve_right hNotThere)
    | none =>
      have hDoomed := h.stale [] change rest names rfl hCreated hTold.leads hCleanChange hEntry
      exact hDoomed.below ((hLeads.startsWith_iff hTold.leads).mpr hBelow)

theorem Tracked.there_handled (h : Tracked roots d r (change :: rest)) (hTree : d.WellFormed)
    (hTold : Told roots change names) (hEffect : Effect d r r' change names)
    (hLeads : p.Leads others) (hClean : Clean roots others) (hThere : d.Watched others) :
    Expected rest p ∨ r'.isSubscribed p = true ∧ ¬ Doomed rest p := by
  rcases h.there p others hLeads hClean hThere with hExpected | ⟨hp, hStays⟩
  · obtain ⟨front, other, back, hSplit, hCreated, hAbove, hStays⟩ := hExpected
    cases front with
    | cons first front =>
      obtain ⟨-, hSplit⟩ := List.cons.inj hSplit
      exact Or.inl ⟨front, other, back, hSplit, hCreated, hAbove, hStays⟩
    | nil =>
      -- the creation is the one that was handled, and finds the path
      cases hSplit
      have hBelow := (hLeads.startsWith_iff hTold.leads).mp hAbove
      have hNoArtifact := (hTold.clean hBelow hClean).2
      obtain ⟨e, hEntry⟩ := hThere.above hTree hBelow
      have hFound := hEffect.finds hCreated hNoArtifact e hEntry p others hLeads hBelow
      exact Or.inr ⟨hFound.mpr (Or.inr hThere), hStays⟩
  · have hKept : r'.isSubscribed p = true := by
      refine (hEffect.keeps p hp).resolve_right fun hRemoved => ?_
      exact hStays ⟨change, List.mem_cons_self, hRemoved⟩
    refine Or.inr ⟨hKept, fun hDoomed => hStays ?_⟩
    have hAll : Doomed ([change] ++ rest) p := doomed_append.mpr (Or.inr hDoomed)
    exact hAll

/-- **A change is handled.** -/
theorem Tracked.change_handled (h : Tracked roots d r (change :: rest)) (hTree : d.WellFormed)
    (hTold : Told roots change names) (hEffect : Effect d r r' change names) :
    Tracked roots d r' rest where
  willing := hEffect.willing
  usable := h.usable
  told other hOther := h.told other (List.mem_cons_of_mem change hOther)
  rooted q hq := by
    rcases hEffect.grows q hq with hOld | ⟨-, texts, hTexts⟩
    · exact h.rooted q hOld
    · exact ⟨names ++ texts, hTexts, hTold.rooted⟩
  gone _ _ hLeads hClean hp hNotThere := h.gone_handled hTold hEffect hLeads hClean hp hNotThere
  there _ _ hLeads hClean hThere := h.there_handled hTree hTold hEffect hLeads hClean hThere
  stale front other back others hSplit :=
    h.stale (change :: front) other back others (by rw [hSplit, List.cons_append])

/-- **Changes are handled**, one after another. -/
theorem Tracked.changes_handled (hTree : d.WellFormed) (hFits : Fits roots d) (now : Nat) :
    ∀ {changes : List Change} {c : Coalescer}, Tracked roots d c.registrar (changes ++ rest) →
      Tracked roots d (c.handleChanges d now changes).1.registrar rest
  | [], _, h => h
  | change :: changes, c, h => by
    obtain ⟨hKind, names, hTold⟩ := h.told change List.mem_cons_self
    have hEffect : Effect d c.registrar (c.handleChange d now change).1.registrar change names :=
      hTold.effect h.willing hTree hFits h.usable hKind now
    exact changes_handled (c := (c.handleChange d now change).1) hTree hFits now
      (h.change_handled hTree hTold hEffect)

/-! ## Alterations -/

section Altered

variable {gone come : Option Place} {left right : List Change} {kind : ChangeKind}

theorem Announced.kind_eq {place : Option Place} (h : Announced roots kind place left) :
    ∀ change ∈ left, change.kind = kind ∧ ∃ names, names.map ByteString.text ∈ place ∧
      Told roots change names := by
  rcases h with ⟨change, names, rfl, hKind, hPlace, hTold⟩ | ⟨rfl, -⟩
  · intro other hOther
    cases List.mem_singleton.mp hOther
    exact ⟨hKind, names, hPlace, hTold⟩
  · exact fun other hOther => (List.not_mem_nil hOther).elim

/-- What happens above a path below a root is reported. -/
theorem Announced.above {place : Option Place} (h : Announced roots kind place left)
    (hLeads : p.Leads names) (hRooted : Rooted roots names) {spot : Place} (hSpot : spot ∈ place)
    (hAbove : spot <+: names.map .text) :
    ∃ change, left = [change] ∧ change.kind = kind ∧ p.startsWith change.path = true := by
  rcases h with ⟨change, others, hLeft, hKind, hOthers, hTold⟩ | ⟨-, hNone⟩
  · refine ⟨change, hLeft, hKind, (hLeads.startsWith_iff hTold.leads).mpr ?_⟩
    rw [Option.mem_unique hSpot hOthers] at hAbove
    exact (List.prefix_map_iff_of_injective fun _ _ hEq => ByteString.text.inj hEq).mp hAbove
  · exact absurd hAbove (hNone spot hSpot names hRooted)

/-- Nothing is reported of a path that nothing happened above. -/
theorem Announced.not_above {place : Option Place} (h : Announced roots kind place left)
    (hLeads : p.Leads names) (hNot : ∀ spot ∈ place, ¬ spot <+: names.map .text) :
    ¬ Doomed left p := by
  rintro ⟨change, hChange, -, hAbove⟩
  obtain ⟨-, others, hOthers, hTold⟩ := h.kind_eq change hChange
  exact hNot _ hOthers (((hLeads.startsWith_iff hTold.leads).mp hAbove).map _)

theorem Announced.not_doomed {place : Option Place} (h : Announced roots .created place right) :
    ¬ Doomed right p := by
  rintro ⟨change, hChange, hRemoved, -⟩
  cases (h.kind_eq change hChange).1.symm.trans hRemoved

/-- What is given up is reported to go. -/
theorem Announced.goes (h : Announced roots .removed gone left) (hLeads : p.Leads names)
    (hRooted : Rooted roots names) {g : Place} (hGone : g ∈ gone) (hAbove : g <+: names.map .text) :
    Doomed left p := by
  obtain ⟨change, rfl, hKind, hPath⟩ := h.above hLeads hRooted hGone hAbove
  exact ⟨change, List.mem_singleton_self change, hKind, hPath⟩

/-- What can be watched no more was given up. -/
theorem Disk.Shift.lost (hShift : d.Shift d' gone come)
    (hOld : ∃ e, d.get? (names.map .text) = some e)
    (hNew : d'.get? (names.map .text) ≠ d.get? (names.map .text)) (hNot : ¬ d'.Watched names) :
    ∃ g ∈ gone, g <+: names.map .text := by
  by_contra hNoneGone
  refine hNew (hShift.elsewhere _ (fun g hg hAbove => hNoneGone ⟨g, hg, hAbove⟩) ?_)
  intro t ht hAbove
  obtain ⟨e, hEntry⟩ := hOld
  exact hNot (hShift.replaced t ht _ e hAbove hEntry)

theorem Tracked.gone_altered (h : Tracked roots d r pending) (hShift : d.Shift d' gone come)
    (hGone : Announced roots .removed gone left) (hLeads : p.Leads names)
    (hClean : Clean roots names) (hp : r.isSubscribed p = true) (hNotThere : ¬ d'.Watched names) :
    Doomed (pending ++ (left ++ right)) p := by
  rw [doomed_append, doomed_append]
  by_cases hOld : d.Watched names
  · obtain ⟨e, hEntry, hKind⟩ := hOld
    have hNew : d'.get? (names.map .text) ≠ d.get? (names.map .text) := fun hSame =>
      hNotThere ⟨e, hSame.trans hEntry, hKind⟩
    obtain ⟨g, hg, hAbove⟩ := hShift.lost ⟨e, hEntry⟩ hNew hNotThere
    exact Or.inr (Or.inl (hGone.goes hLeads hClean.rooted hg hAbove))
  · exact Or.inl (h.gone p names hLeads hClean hp hOld)

theorem Tracked.there_altered (h : Tracked roots d r pending) (hShift : d.Shift d' gone come)
    (hGone : Announced roots .removed gone left) (hCome : Announced roots .created come right)
    (hLeads : p.Leads names) (hClean : Clean roots names) (hThere : d'.Watched names) :
    Expected (pending ++ (left ++ right)) p ∨
      r.isSubscribed p = true ∧ ¬ Doomed (pending ++ (left ++ right)) p := by
  by_cases hComes : ∃ t ∈ come, t <+: names.map ByteString.text
  · -- the creation is the last change that is reported
    obtain ⟨t, ht, hAbove⟩ := hComes
    obtain ⟨change, rfl, hKind, hPath⟩ := hCome.above hLeads hClean.rooted ht hAbove
    refine Or.inl ⟨pending ++ left, change, [], ?_, hKind, hPath, ?_⟩
    · rw [List.append_assoc]
    · rintro ⟨other, hOther, -⟩
      exact List.not_mem_nil hOther
  · -- nothing happened at the path or above, and nothing of it is reported
    have hNotGone : ∀ g ∈ gone, ¬ g <+: names.map ByteString.text := by
      intro g hg hAbove
      obtain ⟨e, hEntry, -⟩ := hThere
      rw [hShift.cleared g hg _ hAbove] at hEntry
      cases hEntry
    have hSame := hShift.elsewhere _ hNotGone fun t ht hAbove => hComes ⟨t, ht, hAbove⟩
    have hOld : d.Watched names := by
      obtain ⟨e, hEntry, hKind⟩ := hThere
      exact ⟨e, hSame.symm.trans hEntry, hKind⟩
    have hNone : ¬ Doomed (left ++ right) p := by
      rw [doomed_append, not_or]
      exact ⟨hGone.not_above hLeads hNotGone, hCome.not_doomed⟩
    rcases h.there p names hLeads hClean hOld with hExpected | ⟨hp, hStays⟩
    · obtain ⟨front, change, back, rfl, hCreated, hPath, hStays⟩ := hExpected
      refine Or.inl ⟨front, change, back ++ (left ++ right), ?_, hCreated, hPath, ?_⟩
      · rw [List.append_assoc, List.cons_append]
      · rw [doomed_append, not_or]
        exact ⟨hStays, hNone⟩
    · refine Or.inr ⟨hp, ?_⟩
      rw [doomed_append, not_or]
      exact ⟨hStays, hNone⟩

theorem Tracked.stale_altered (h : Tracked roots d r pending) (hShift : d.Shift d' gone come)
    (hGone : Announced roots .removed gone left) (hCome : Announced roots .created come right)
    {front back : List Change} (hSplit : pending ++ (left ++ right) = front ++ change :: back)
    (hCreated : change.kind = .created) (hLeads : change.path.Leads names)
    (hClean : Clean roots names) (hNothing : d'.get? (names.map .text) = none) :
    Doomed back change.path := by
  have hOlder {inner : List Change} (hPending : pending = front ++ change :: inner)
      (hBack : back = inner ++ (left ++ right)) : Doomed back change.path := by
    rw [hBack, doomed_append, doomed_append]
    cases hOld : d.get? (names.map .text) with
    | none => exact Or.inl (h.stale front change inner names hPending hCreated hLeads hClean hOld)
    | some e =>
      have hNot : ¬ d'.Watched names := by
        rintro ⟨f, hEntry, -⟩
        cases hNothing.symm.trans hEntry
      obtain ⟨g, hg, hAbove⟩ := hShift.lost ⟨e, hOld⟩ (by simp [hNothing, hOld]) hNot
      exact Or.inr (Or.inl (hGone.goes hLeads hClean.rooted hg hAbove))
  -- a creation that is new is of a path that is there
  have hNewer (hNew : change ∈ left ++ right) : Doomed back change.path := by
    rcases List.mem_append.mp hNew with hLeft | hRight
    · cases (hGone.kind_eq change hLeft).1.symm.trans hCreated
    · obtain ⟨-, others, hOthers, hTold⟩ := hCome.kind_eq change hRight
      obtain ⟨e, hEntry⟩ := hShift.present _ hOthers
      rw [hLeads.inj hTold.leads, hEntry] at hNothing
      cases hNothing
  rcases List.append_eq_append_iff.mp hSplit with ⟨more, -, hNew⟩ | ⟨inner, hPending, hRest⟩
  · exact hNewer (by simp [hNew])
  · cases inner with
    | nil =>
      have hNew : change :: back = left ++ right := hRest
      exact hNewer (hNew ▸ List.mem_cons_self)
    | cons first inner =>
      obtain ⟨rfl, hBack⟩ := List.cons.inj hRest
      exact hOlder hPending hBack

/-- **The tree changes**, and the report of that is queued. -/
theorem Tracked.altered (h : Tracked roots d r pending) (hShift : d.Shift d' gone come)
    (hGone : Announced roots .removed gone left) (hCome : Announced roots .created come right) :
    Tracked roots d' r (pending ++ (left ++ right)) where
  willing := h.willing
  usable := h.usable
  told change hChange := by
    rcases List.mem_append.mp hChange with hOld | hNew
    · exact h.told change hOld
    · rcases List.mem_append.mp hNew with hLeft | hRight
      · obtain ⟨hKind, names, -, hTold⟩ := hGone.kind_eq change hLeft
        exact ⟨Or.inr hKind, names, hTold⟩
      · obtain ⟨hKind, names, -, hTold⟩ := hCome.kind_eq change hRight
        exact ⟨Or.inl hKind, names, hTold⟩
  rooted := h.rooted
  gone _ _ hLeads hClean hp hNotThere := h.gone_altered hShift hGone hLeads hClean hp hNotThere
  there _ _ hLeads hClean hThere := h.there_altered hShift hGone hCome hLeads hClean hThere
  stale _ _ _ _ hSplit hCreated hLeads hClean hNothing :=
    h.stale_altered hShift hGone hCome hSplit hCreated hLeads hClean hNothing

end Altered

end TreeWatch
