import TreeWatch.Proofs.Marks
import TreeWatch.Proofs.Walks

/-!
# What a change does to the subscriptions

With a willing engine, a path that disappeared is dropped with everything below it, and a path that
appeared is subscribed with everything below it as the tree is now. The tree may have moved on
since: then something else is found, or nothing. Whatever is found lies below the path.

Main results:
  * `Coalescer.handleChange_removed`: what goes
  * `Coalescer.track_grown`: what comes, as far as it can be said without the tree
  * `Coalescer.track_present`: what comes if the path is there
-/

namespace TreeWatch

namespace Coalescer

variable {c : Coalescer} {d : Disk} {now : Nat} {change : Change} {p q : Path}
  {names : List String} {e : Entry}

theorem not_crashed (h : c.registrar.engine.Willing) : c.crashed = false := by
  simp [crashed, h.uncrashed]

/-- Handling a change does to the subscriptions what applying it does. -/
theorem handleChange_registrar (h : c.registrar.engine.Willing) :
    (c.handleChange d now change).1.registrar =
      if isCounterArtifact change.path then c.registrar
      else ((c.apply d change).1.getD c).registrar := by
  unfold handleChange
  rw [not_crashed h, if_neg (by simp)]
  split
  · rfl
  · rcases c.apply d change with ⟨applied, notices⟩
    cases applied with
    | none => rfl
    | some applied =>
      dsimp only
      split
      · rfl
      · split
        · rw [mark_fst]
          cases resolveRoot change.path applied.roots <;> rfl
        · rfl

/-- **What goes** is what lies below the path. -/
theorem handleChange_removed (h : c.registrar.engine.Willing) (hKind : change.kind = .removed)
    (hName : isCounterArtifact change.path = false) :
    (c.handleChange d now change).1.registrar.engine.Willing ∧
      ∀ q, (c.handleChange d now change).1.registrar.isSubscribed q = true ↔
        c.registrar.isSubscribed q = true ∧ q.startsWith change.path = false := by
  have hRegistrar : (c.handleChange d now change).1.registrar =
      (c.registrar.unregister change.path).1 := by
    rw [handleChange_registrar h, hName, if_neg (by simp), apply, hKind]
    rfl
  rw [hRegistrar]
  exact Registrar.unregister_spec h change.path

/-! ## Registering a tree -/

theorem registerTree_grown (h : c.registrar.engine.Willing) (hTree : d.WellFormed)
    (hLeads : p.Leads names) : ∃ new, Registrar.Grown c.registrar
      (c.registrar.registerTree d p).registrar new ∧
        ∀ q, new q → ∃ texts, q.Leads (names ++ texts) := by
  obtain ⟨n, -, hGrown⟩ := Registrar.subscribeAll_spec (walk d p).visits 0 h
  refine ⟨_, hGrown, ?_⟩
  rintro q ⟨visit, hVisit, path, hOffers, hSame⟩
  obtain ⟨texts, hTexts⟩ := hTree.walk_below hLeads hVisit hOffers
  exact ⟨texts, hTexts.of_sameAs hSame⟩

/-- **A directory** is subscribed with everything in it that can be watched. -/
theorem registerTree_dir (h : c.registrar.engine.Willing) (hTree : d.WellFormed)
    (hLeads : p.Leads names) (hUsable : p.Usable) (hReach : d.InReach (names.map .text) p)
    (hDir : d.get? (names.map .text) = some .dir) :
    (∃ n, (c.registrar.registerTree d p).result = .ok n) ∧
      Registrar.Grown c.registrar (c.registrar.registerTree d p).registrar fun q =>
        ∃ others, q.Leads others ∧ names <+: others ∧ d.Watched others := by
  obtain ⟨hFault, hOffers⟩ := hTree.walk_offers hLeads hUsable hReach hDir
  obtain ⟨n, hTaken, hGrown⟩ := Registrar.subscribeAll_spec (walk d p).visits 0 h
  have hResult : (c.registrar.registerTree d p).result = .ok n := by
    unfold Registrar.registerTree
    dsimp only
    rw [hFault, hTaken]
  refine ⟨⟨n, hResult⟩, hGrown.willing, fun q => (hGrown.holds q).trans ?_⟩
  refine or_congr_right ⟨?_, ?_⟩
  · rintro ⟨visit, hVisit, path, hOffer, hSame⟩
    obtain ⟨texts, hTexts⟩ := hTree.walk_below hLeads hVisit hOffer
    have hOthers := hTexts.of_sameAs hSame
    exact ⟨_, hOthers, (hOffers q _ hOthers).mp ⟨visit, hVisit, path, hOffer, hSame⟩⟩
  · rintro ⟨others, hOthers, hHere⟩
    exact (hOffers q others hOthers).mpr hHere

/-- What is registered at all is a path that the system takes. -/
theorem registerTree_usable {n : Nat} (hLeads : p.Leads names)
    (hResult : (c.registrar.registerTree d p).result = .ok n) : p.Usable := by
  cases hStat : d.linkStat p.native with
  | error fault =>
    have hVisits : treeVisits d p = .error fault := by
      unfold treeVisits
      rw [hStat]
      rfl
    unfold Registrar.registerTree walk at hResult
    rw [if_neg hLeads.not_dash, hVisits] at hResult
    cases hResult
  | ok entry => exact Disk.usable_of_linkStat hStat

/-! ## Tracking -/

/-- A regular file is subscribed under the path it was found under. -/
theorem track_file {contents : ByteString} (h : c.registrar.engine.Willing)
    (hStat : d.linkStat p.native = .ok (.file contents)) :
    Registrar.Grown c.registrar ((c.track d p).1.getD c).registrar p.SameAs := by
  obtain ⟨new, hNew, hGrown⟩ := Registrar.subscribe_spec h p
  unfold track
  rw [hStat]
  dsimp only
  generalize c.registrar.subscribe p = answer at hNew hGrown
  obtain ⟨registrar, result⟩ := answer
  cases hNew
  exact hGrown

/-- What is subscribed when a path appeared lies below it. -/
theorem track_grown (h : c.registrar.engine.Willing) (hTree : d.WellFormed)
    (hLeads : p.Leads names) : ∃ new, Registrar.Grown c.registrar
      ((c.track d p).1.getD c).registrar new ∧ ∀ q, new q → ∃ texts, q.Leads (names ++ texts) := by
  -- for links, sockets and devices nothing is subscribed, nor where nothing is found
  have hNothing : ∃ new, Registrar.Grown c.registrar c.registrar new ∧
      ∀ q, new q → ∃ texts, q.Leads (names ++ texts) :=
    ⟨fun _ => False, ⟨h, fun q => by simp⟩, fun q hq => hq.elim⟩
  cases hStat : d.linkStat p.native with
  | error fault =>
    unfold track
    rw [hStat]
    exact hNothing
  | ok entry =>
    cases entry with
    | dir =>
      unfold track
      rw [hStat]
      exact registerTree_grown h hTree hLeads
    | file contents =>
      refine ⟨p.SameAs, track_file h hStat, fun q hSame => ⟨[], ?_⟩⟩
      rw [List.append_nil]
      exact hLeads.of_sameAs hSame
    | link target | socket | device =>
      unfold track
      rw [hStat]
      exact hNothing

/-- Under a path that the system does not take nothing is found. -/
theorem track_unusable (h : ¬ p.Usable) : (c.track d p).1 = none := by
  unfold track
  cases hStat : d.linkStat p.native with
  | error fault => rfl
  | ok entry => exact absurd (Disk.usable_of_linkStat hStat) h

/-- At an entry that is no directory, and below it, there is at most the entry to watch. -/
theorem watched_at_leaf (hTree : d.WellFormed) (hEntry : d.get? (names.map .text) = some e)
    (hLeaf : e ≠ .dir) {others : List String} (hBelow : names <+: others)
    (hWatched : d.Watched others) : others = names ∧ e.isWatched = true := by
  obtain ⟨texts, rfl⟩ := hBelow
  obtain ⟨f, hHere, hKind⟩ := hWatched
  rw [List.map_append] at hHere
  -- something further down would have a directory here
  by_cases hTexts : texts.map ByteString.text = []
  · rw [hTexts, List.append_nil, hEntry] at hHere
    cases hHere
    exact ⟨by simpa using hTexts, hKind⟩
  · rw [hTree.ancestor hTexts hHere] at hEntry
    cases hEntry
    exact absurd rfl hLeaf

/-- **What is subscribed when a path appeared** that is there: all that can be watched there now. -/
theorem track_present {name : String} (h : c.registrar.engine.Willing) (hTree : d.WellFormed)
    (hLeads : p.Leads names) (hName : IsName name)
    (hNoNul : 0 ∉ (p.join ⟨name⟩).native.bytes)
    (hReach : d.InReach ((names ++ [name]).map .text) (p.join ⟨name⟩))
    (hEntry : d.get? ((names ++ [name]).map .text) = some e) {others : List String}
    (hOthers : q.Leads others) :
    ((c.track d (p.join ⟨name⟩)).1.getD c).registrar.isSubscribed q = true ↔
      c.registrar.isSubscribed q = true ∨ (names ++ [name] <+: others ∧ d.Watched others) := by
  have hJoin := hLeads.join hName
  -- what is not watched itself has nothing to watch below it
  have hUnwatched (hKind : e.isWatched = false) :
      ¬ (names ++ [name] <+: others ∧ d.Watched others) := by
    rintro ⟨hBelow, hWatched⟩
    have hLeaf : e ≠ .dir := by
      rintro rfl
      cases hKind
    have hHere := (watched_at_leaf hTree hEntry hLeaf hBelow hWatched).2
    rw [hKind] at hHere
    cases hHere
  by_cases hTakes : (p.join ⟨name⟩).Usable
  · have hStat := hTree.linkStat_join hLeads hName hTakes hEntry
    cases e with
    | dir =>
      unfold track
      rw [hStat]
      have hGrown := (registerTree_dir h hTree hJoin hTakes hReach hEntry).2
      refine (hGrown.holds q).trans (or_congr_right ?_)
      constructor
      · rintro ⟨names', hNames, hHere⟩
        exact hNames.inj hOthers ▸ hHere
      · exact fun hHere => ⟨others, hOthers, hHere⟩
    | file contents =>
      refine ((track_file h hStat).holds q).trans (or_congr_right ?_)
      rw [hJoin.sameAs_iff hOthers]
      constructor
      · rintro rfl
        exact ⟨List.prefix_rfl, _, hEntry, rfl⟩
      · rintro ⟨hBelow, hWatched⟩
        exact (watched_at_leaf hTree hEntry (by simp) hBelow hWatched).1.symm
    | link target | socket | device =>
      unfold track
      rw [hStat]
      simp [hUnwatched rfl]
  · -- nothing is found, and there is nothing to watch
    have hKind : e.isWatched = false := by
      cases hWatched : e.isWatched with
      | false => rfl
      | true => exact absurd ⟨hNoNul, hReach.short hEntry hWatched⟩ hTakes
    rw [track_unusable hTakes]
    simp [hUnwatched hKind]

/-! ## Changes -/

theorem handleChange_track (h : c.registrar.engine.Willing) (hKind : change.kind = .created)
    (hName : isCounterArtifact change.path = false) :
    (c.handleChange d now change).1.registrar =
      ((c.track d change.path).1.getD c).registrar := by
  rw [handleChange_registrar h, hName, if_neg (by simp), apply, hKind]

/-- The report of a path that the system does not take changes no subscription. -/
theorem handleEvent_unusable (h : c.registrar.engine.Willing) (hLong : ¬ p.Usable) :
    (c.handleEvent d now ⟨.create, [p.native]⟩).1.registrar = c.registrar := by
  show (c.handleChange d now ⟨p, .created⟩).1.registrar = c.registrar
  rw [handleChange_registrar h, apply]
  dsimp only
  rw [track_unusable hLong]
  split <;> rfl

end Coalescer

end TreeWatch
