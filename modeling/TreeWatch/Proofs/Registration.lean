import TreeWatch.Proofs.Dedup
import TreeWatch.Proofs.Spellings
import TreeWatch.Proofs.Walks

/-!
# What a registration adds

A registration goes through the entries of a walk, skips what is nothing to watch and what is no
text, and asks the engine for the rest, unless it is subscribed already. Entries may overlap with
what is subscribed in any way, and the engine may refuse any of them. If it refuses none, all that
the walk offers is subscribed afterwards, and the count is what is new of it; otherwise what stands
before the path refused is.

Main results:
  * `Disk.WellFormed.offers_distinct`: no path is offered twice by a walk
  * `Registrar.subscribeAll_asked`: how asking for what is offered ends
  * `registration_adds_tree`: the set, the count and the requests after a registration
-/

namespace TreeWatch

/-! ## What a walk offers -/

/-- The paths that a walk offers, in order. -/
def Walked.offers (walked : Walked) : List Path :=
  walked.visits.filterMap Visit.offer?

section Distinct

variable {d : Disk} {p q : Path} {place : Place}

/-- What lies below a place has one entry for names at most. -/
theorem Disk.WellFormed.below_distinct (h : d.WellFormed) (place : Place) :
    (d.below place).Pairwise fun x y => x.1 ≠ y.1 := by
  unfold below
  refine List.pairwise_filterMap.mpr ((List.pairwise_map.mp h.distinct).imp ?_)
  rintro ⟨source, e⟩ ⟨target, f⟩ hApart x hx y hy hSame
  simp only [Option.ite_none_right_eq_some, Option.some.injEq] at hx hy
  obtain ⟨⟨⟨names, rfl⟩, -⟩, rfl⟩ := hx
  obtain ⟨⟨⟨others, rfl⟩, -⟩, rfl⟩ := hy
  -- the places begin alike, so they differ in what follows
  rw [List.drop_left, List.drop_left] at hSame
  exact hApart (congrArg (place ++ ·) hSame)

/-- What is offered below a place lies below the path by the names that lead there. -/
theorem Disk.WellFormed.offer_below (h : d.WellFormed) {x : Place × Entry}
    (hx : x ∈ d.below place)
    (hOffer : Visit.offer? ⟨x.1.foldl ByteString.child p.native, x.2⟩ = some q) :
    ∃ texts : List String, texts ≠ [] ∧ x.1 = texts.map .text ∧
      q.components = p.components ++ texts.map .name := by
  obtain ⟨-, hPath⟩ := Visit.offer?_eq_some.mp hOffer
  obtain ⟨texts, hTexts, rfl⟩ := ByteString.text_of_foldl_child hPath
  obtain ⟨hSome, hEntry⟩ := (mem_below d place).mp hx
  refine ⟨texts, fun hNil => hSome (by simp [hTexts, hNil]), hTexts,
    Path.components_under fun name hName => ?_⟩
  have hMem : (.text name : Name) ∈ x.1 := hTexts ▸ List.mem_map_of_mem hName
  exact (h.valid _ _ hEntry _ (List.mem_append_right _ hMem)).isName

theorem Disk.WellFormed.visitsBelow_distinct (h : d.WellFormed) (place : Place) (p : Path) :
    ((d.visitsBelow place p).filterMap Visit.offer?).Pairwise fun q r => ¬ q.SameAs r := by
  unfold visitsBelow
  rw [List.filterMap_map, List.pairwise_filterMap]
  refine (h.below_distinct place).imp_of_mem fun {x y} hx hy hApart q hq r hr hSame => ?_
  obtain ⟨texts, -, hTexts, hComponents⟩ := h.offer_below hx hq
  obtain ⟨others, -, hOthers, hOtherComponents⟩ := h.offer_below hy hr
  -- the same components below the same path come from the same names
  unfold Path.SameAs at hSame
  rw [hComponents, hOtherComponents, List.append_cancel_left_eq] at hSame
  have hNames : texts = others :=
    (List.map_inj_right fun _ _ hEq => Component.name.inj hEq).mp hSame
  exact hApart (by rw [hTexts, hOthers, hNames])

theorem Disk.WellFormed.treeVisits_distinct (h : d.WellFormed) {visits : List Visit}
    (hVisits : treeVisits d p = .ok visits) :
    (visits.filterMap Visit.offer?).Pairwise fun q r => ¬ q.SameAs r := by
  obtain ⟨e, first, deeper, -, hRoot, ⟨-, rfl⟩ | ⟨-, place, -, rfl⟩⟩ := treeVisits_eq_ok hVisits
  · cases hFirst : first.offer? with
    | none => rw [List.filterMap_cons_none hFirst]; exact .nil
    | some q => rw [List.filterMap_cons_some hFirst]; exact List.pairwise_singleton _ _
  · have hBelow := h.visitsBelow_distinct place p
    cases hFirst : first.offer? with
    | none => rwa [List.filterMap_cons_none hFirst]
    | some q =>
      rw [List.filterMap_cons_some hFirst]
      refine List.pairwise_cons.mpr ⟨fun r hr hSame => ?_, hBelow⟩
      obtain ⟨visit, hVisit, hOffer⟩ := List.mem_filterMap.mp hr
      obtain ⟨x, hx, rfl⟩ := List.mem_map.mp hVisit
      obtain ⟨texts, hSome, -, hComponents⟩ := h.offer_below hx hOffer
      -- the start of the walk has the fewest components
      have hStart : p = q := by
        obtain ⟨-, hPath⟩ := Visit.offer?_eq_some.mp hFirst
        rw [rootVisit_path hRoot] at hPath
        cases p
        cases q
        exact congrArg Path.mk (ByteString.text.inj hPath)
      unfold Path.SameAs at hSame
      rw [hComponents, hStart, List.self_eq_append_right, List.map_eq_nil_iff] at hSame
      exact hSome hSame

/-- **No path is offered twice** by a walk, in whatever spelling. -/
theorem Disk.WellFormed.offers_distinct (h : d.WellFormed) (p : Path) :
    (walk d p).offers.Pairwise fun q r => ¬ q.SameAs r := by
  unfold Walked.offers walk
  split
  · exact .nil
  · cases hVisits : treeVisits d p with
    | error fault => exact .nil
    | ok visits =>
      exact (h.treeVisits_distinct hVisits).sublist
        ((walkThrough_front visits).sublist.filterMap _)

end Distinct

/-! ## What is new -/

namespace Registrar

/-- The paths of a list that are not subscribed yet, each of them once. -/
def missing (r : Registrar) (paths : List Path) : List Path :=
  Path.dedup (paths.filter fun p => !r.isSubscribed p)

/-- Paths have been taken: the set has those that were missing besides what it had, and the engine
was asked for each of them, in order, and granted it. -/
structure Takes (before after : Registrar) (paths : List Path) : Prop where
  members : after.subscribed.toList.Perm (before.missing paths ++ before.subscribed.toList)
  requests : after.engine.requests =
    ((before.missing paths).map fun p => .subscribe p.spelling true).reverse ++
      before.engine.requests

/-- A path has been refused: it was not in the set, and still is not. -/
structure Refuses (before after : Registrar) (path : Path) (fault : EngineError) : Prop where
  new : before.isSubscribed path = false
  answer : before.engine.subscribe path.spelling = (after.engine, .error fault)
  kept : after.subscribed = before.subscribed

/-- How it ends to ask for paths one after another, on top of a count: all are taken, or one is
refused after those before it were taken. -/
inductive Asked (before : Registrar) (added : Nat) (paths : List Path) (after : Registrar) :
    Except WatchError Nat → Prop where
  | taken (hTaken : before.Takes after paths) :
      Asked before added paths after (.ok (added + (before.missing paths).length))
  | refused {mid : Registrar} {taken rest : List Path} {path : Path} {fault : EngineError}
      (hPaths : paths = taken ++ path :: rest) (hTaken : before.Takes mid taken)
      (hRefused : mid.Refuses after path fault) :
      Asked before added paths after (.error (.engine fault))

variable {r after : Registrar} {path : Path} {paths : List Path} {added : Nat}
  {result : Except WatchError Nat}

theorem missing_known (h : r.isSubscribed path = true) :
    r.missing (path :: paths) = r.missing paths := by
  unfold missing
  rw [List.filter_cons_of_neg (by simp [h])]

theorem missing_new (engine : Engine) (paths : List Path) (h : r.isSubscribed path = false) :
    r.missing (path :: paths) = path :: missing ⟨engine, r.subscribed.insert path⟩ paths := by
  unfold missing
  rw [List.filter_cons_of_pos (by simp [h]), Path.dedup_cons, List.filter_filter]
  -- what is missing then is what was missing before, but for the path itself
  congr 2
  refine List.filter_congr fun q _ => ?_
  have hHolds : isSubscribed ⟨engine, r.subscribed.insert path⟩ q =
      (r.isSubscribed q || decide (path.SameAs q)) := by
    rw [Bool.eq_iff_iff, Bool.or_eq_true, decide_eq_true_iff]
    exact r.subscribed.contains_insert path q
  rw [hHolds, Bool.not_or, Bool.and_comm]

/-- Paths that have been taken are in the set. -/
theorem Takes.holds (h : r.Takes after paths) (q : Path) :
    after.isSubscribed q = true ↔ r.isSubscribed q = true ∨ ∃ p ∈ paths, p.SameAs q := by
  unfold isSubscribed
  rw [PathSet.contains_iff, PathSet.contains_iff]
  constructor
  · rintro ⟨p, hp, hSame⟩
    rcases List.mem_append.mp (h.members.subset hp) with hNew | hOld
    · have hMissing := Path.mem_of_mem_dedup hNew
      exact Or.inr ⟨p, (List.mem_filter.mp hMissing).1, hSame⟩
    · exact Or.inl ⟨p, hOld, hSame⟩
  · rintro (⟨p, hp, hSame⟩ | ⟨p, hp, hSame⟩)
    · exact ⟨p, h.members.symm.subset (List.mem_append_right _ hp), hSame⟩
    · cases hKnown : r.isSubscribed p with
      | true =>
        obtain ⟨old, hOld, hAlike⟩ := (r.subscribed.contains_iff p).mp hKnown
        exact ⟨old, h.members.symm.subset (List.mem_append_right _ hOld), hAlike.trans hSame⟩
      | false =>
        -- it was missing, so some spelling of it was taken
        have hMissing : p ∈ paths.filter fun q => !r.isSubscribed q :=
          List.mem_filter.mpr ⟨hp, by simp [hKnown]⟩
        obtain ⟨new, hNew, hAlike⟩ := Path.exists_mem_dedup hMissing
        exact ⟨new, h.members.symm.subset (List.mem_append_left _ hNew), hAlike.trans hSame⟩

theorem Takes.nil : r.Takes r [] :=
  ⟨.refl _, rfl⟩

theorem Takes.cons_known (h : r.isSubscribed path = true) (hRest : r.Takes after paths) :
    r.Takes after (path :: paths) := by
  obtain ⟨hMembers, hRequests⟩ := hRest
  rw [← missing_known h] at hMembers hRequests
  exact ⟨hMembers, hRequests⟩

/-! ## One path -/

theorem requests_of_granted {e engine : Engine} {s : String}
    (h : e.subscribe s = (engine, .ok ())) :
    engine.requests = .subscribe s true :: e.requests := by
  unfold Engine.subscribe at h
  dsimp only at h
  split at h
  · cases h
  split at h
  · cases h
  split at h
  · cases h
  split at h <;> cases h <;> rfl

theorem Takes.cons_granted (h : r.isSubscribed path = false)
    (hGranted : (r.engine.subscribe path.spelling).2 = .ok ())
    (hRest : Takes ⟨(r.engine.subscribe path.spelling).1, r.subscribed.insert path⟩ after paths) :
    r.Takes after (path :: paths) := by
  have hMissing := missing_new (r.engine.subscribe path.spelling).1 paths h
  obtain ⟨hMembers, hRequests⟩ := hRest
  refine ⟨?_, ?_⟩
  · -- the path is in the set before the rest is taken, and leads what was missing
    rw [hMissing]
    refine hMembers.trans ?_
    exact ((r.subscribed.insert_perm path h).append_left _).trans List.perm_middle
  · rw [hMissing, hRequests, requests_of_granted (Prod.ext rfl hGranted), List.map_cons,
      List.reverse_cons, List.append_assoc]
    rfl

/-! ## A walk -/

theorem Asked.cons_known (h : r.isSubscribed path = true)
    (hRest : r.Asked added paths after result) : r.Asked added (path :: paths) after result := by
  cases hRest with
  | taken hTaken =>
    rw [← missing_known h]
    exact .taken (hTaken.cons_known h)
  | refused hPaths hTaken hRefused =>
    exact .refused (congrArg (path :: ·) hPaths) (hTaken.cons_known h) hRefused

theorem Asked.cons_granted (h : r.isSubscribed path = false)
    (hGranted : (r.engine.subscribe path.spelling).2 = .ok ())
    (hRest : Asked ⟨(r.engine.subscribe path.spelling).1, r.subscribed.insert path⟩ (added + 1)
      paths after result) : r.Asked added (path :: paths) after result := by
  cases hRest with
  | taken hTaken =>
    have hAll : r.Asked added (path :: paths) after
        (.ok (added + (r.missing (path :: paths)).length)) :=
      .taken (hTaken.cons_granted h hGranted)
    -- the path counts as one of those that are missing
    rw [missing_new (r.engine.subscribe path.spelling).1 paths h, List.length_cons,
      Nat.add_comm _ 1, ← Nat.add_assoc] at hAll
    exact hAll
  | refused hPaths hTaken hRefused =>
    exact .refused (congrArg (path :: ·) hPaths) (hTaken.cons_granted h hGranted) hRefused

/-- **How asking for what is offered ends.** -/
theorem subscribeAll_asked (visits : List Visit) : ∀ {r : Registrar} (added : Nat),
    r.Asked added (visits.filterMap Visit.offer?) (r.subscribeAll added visits).registrar
      (r.subscribeAll added visits).result := by
  -- by induction on the visits, for any registrar: what is granted changes the set for the rest
  induction visits with
  | nil => exact fun added => .taken .nil
  | cons visit rest ih =>
    intro r added
    cases hOffer : visit.offer? with
    | none =>
      obtain ⟨hRegistrar, hResult⟩ := r.subscribeAll_pass rest added hOffer
      rw [List.filterMap_cons_none hOffer, hRegistrar, hResult]
      exact ih added
    | some path =>
      rw [List.filterMap_cons_some hOffer]
      cases hKnown : r.isSubscribed path with
      | true =>
        have hAnswer : (r.subscribe path).2 = .ok false := by rw [subscribe_known hKnown]
        obtain ⟨hRegistrar, hResult⟩ := subscribeAll_offer rest added hOffer hAnswer
        rw [hRegistrar, hResult, subscribe_known hKnown]
        exact (ih added).cons_known hKnown
      | false =>
        cases hAsked : (r.engine.subscribe path.spelling).2 with
        | error fault =>
          have hRefused := subscribe_refused hKnown hAsked
          have hAnswer : (r.subscribe path).2 = .error (.engine fault) := by rw [hRefused]
          obtain ⟨hRegistrar, hResult⟩ := subscribeAll_refused rest added hOffer hAnswer
          rw [hRegistrar, hResult, hRefused]
          exact .refused (List.nil_append _).symm .nil ⟨hKnown, Prod.ext rfl hAsked, rfl⟩
        | ok granted =>
          have hGranted := subscribe_granted hKnown hAsked
          have hAnswer : (r.subscribe path).2 = .ok true := by rw [hGranted]
          obtain ⟨hRegistrar, hResult⟩ := subscribeAll_offer rest added hOffer hAnswer
          rw [hRegistrar, hResult, hGranted]
          exact (ih (added + 1)).cons_granted hKnown hAsked

/-- Where all that is offered is in the set, nobody is asked. -/
theorem subscribeAll_known (visits : List Visit) (added : Nat)
    (h : ∀ p ∈ visits.filterMap Visit.offer?, r.isSubscribed p = true) :
    (r.subscribeAll added visits).registrar = r ∧
      (r.subscribeAll added visits).result = .ok added := by
  induction visits with
  | nil => exact ⟨rfl, rfl⟩
  | cons visit rest ih =>
    cases hOffer : visit.offer? with
    | none =>
      rw [List.filterMap_cons_none hOffer] at h
      obtain ⟨hRegistrar, hResult⟩ := r.subscribeAll_pass rest added hOffer
      rw [hRegistrar, hResult]
      exact ih h
    | some path =>
      rw [List.filterMap_cons_some hOffer] at h
      have hKnown := subscribe_known (h path List.mem_cons_self)
      have hAnswer : (r.subscribe path).2 = .ok false := by rw [hKnown]
      obtain ⟨hRegistrar, hResult⟩ := subscribeAll_offer rest added hOffer hAnswer
      rw [hRegistrar, hResult, hKnown]
      exact ih fun p hp => h p (List.mem_cons_of_mem _ hp)

/-- **A tree** is taken as far as the walk got, or up to the path that is refused. -/
theorem registerTree_asked (r : Registrar) (d : Disk) (root : Path) :
    (r.Takes (r.registerTree d root).registrar (walk d root).offers ∧
      (r.registerTree d root).result =
        match (walk d root).fault? with
        | some fault => .error (.walk root fault)
        | none => .ok (r.missing (walk d root).offers).length) ∨
    ∃ mid taken rest path fault, (walk d root).offers = taken ++ path :: rest ∧
      r.Takes mid taken ∧ mid.Refuses (r.registerTree d root).registrar path fault ∧
      (r.registerTree d root).result = .error (.engine fault) := by
  unfold registerTree
  dsimp only
  generalize hResult : (r.subscribeAll 0 (walk d root).visits).result = result
  have hAsked := hResult ▸ @subscribeAll_asked (walk d root).visits r 0
  cases hAsked with
  | taken hTaken =>
    refine Or.inl ⟨hTaken, ?_⟩
    cases (walk d root).fault? with
    | some fault => rfl
    | none =>
      rw [Nat.zero_add]
      rfl
  | @refused mid taken rest path fault hPaths hTaken hRefused =>
    exact Or.inr ⟨mid, taken, rest, path, fault, hPaths, hTaken, hRefused, rfl⟩

/-- A tree that was registered is not asked for again. -/
theorem registerTree_again {d : Disk} {root : Path} (hWalk : (walk d root).fault? = none)
    (hTaken : ∀ p ∈ (walk d root).offers, r.isSubscribed p = true) :
    (r.registerTree d root).registrar = r ∧ (r.registerTree d root).result = .ok 0 := by
  obtain ⟨hRegistrar, hResult⟩ := subscribeAll_known (walk d root).visits 0 hTaken
  unfold registerTree
  dsimp only
  rw [hResult, hWalk]
  exact ⟨hRegistrar, rfl⟩

end Registrar

/-! ## Main result -/

/--
**A registration adds the tree.** Whatever the registrar has and the engine refuses, and whatever
the disk is like:
* a registration that succeeds has taken all that the walk offers. The set is what it was and that,
  the engine was asked for what was missing and granted it, and the count is how many paths those
  are. Another registration right after it counts none and asks for none, whatever the engine would
  refuse then;
* a registration that fails has taken a front of what the walk offers. The walk ended early, and
  then it has taken all of it, or the engine refused the path that comes next, and then the path is
  not in the set;
* on a disk that is a tree no path is offered twice, so what was missing is what the walk offers and
  the set did not have.
-/
theorem registration_adds_tree (r : Registrar) (d : Disk) (root : Path) :
    let offers := (walk d root).offers
    let after := (r.registerTree d root).registrar
    (∀ n, (r.registerTree d root).result = .ok n →
      (∀ q, after.isSubscribed q = true ↔
        r.isSubscribed q = true ∨ ∃ p ∈ offers, p.SameAs q) ∧
      r.Takes after offers ∧ n = (r.missing offers).length ∧
      ∀ rules, ((after.withRules rules).registerTree d root).result = .ok 0 ∧
        ((after.withRules rules).registerTree d root).registrar = after.withRules rules) ∧
    (∀ e, (r.registerTree d root).result = .error e → ∃ taken mid, taken <+: offers ∧
      (∀ q, after.isSubscribed q = true ↔
        r.isSubscribed q = true ∨ ∃ p ∈ taken, p.SameAs q) ∧
      r.Takes mid taken ∧
      ((∃ fault, e = .walk root fault ∧ taken = offers ∧ mid = after) ∨
        ∃ path fault, e = .engine fault ∧ taken ++ [path] <+: offers ∧
          mid.Refuses after path fault ∧ after.isSubscribed path = false)) ∧
    (d.WellFormed → r.missing offers = offers.filter fun p => !r.isSubscribed p) := by
  intro offers after
  refine ⟨fun n hOk => ?_, fun e hError => ?_, fun hTree => ?_⟩
  · rcases r.registerTree_asked d root with ⟨hTaken, hResult⟩ | ⟨_, _, _, _, _, -, -, -, hResult⟩
    · -- nothing was refused, so it succeeded because the walk came to its end
      cases hWalk : (walk d root).fault? with
      | some fault =>
        rw [hWalk, hOk] at hResult
        cases hResult
      | none =>
        rw [hWalk, hOk] at hResult
        refine ⟨hTaken.holds, hTaken, Except.ok.inj hResult, fun rules => ?_⟩
        have hAgain : ∀ p ∈ offers, (after.withRules rules).isSubscribed p = true := fun p hp =>
          (hTaken.holds p).mpr (Or.inr ⟨p, hp, Path.SameAs.refl p⟩)
        exact (Registrar.registerTree_again hWalk hAgain).symm
    · rw [hOk] at hResult
      cases hResult
  · rcases r.registerTree_asked d root with
      ⟨hTaken, hResult⟩ | ⟨mid, taken, rest, path, fault, hOffers, hTaken, hRefused, hResult⟩
    · -- nothing was refused, so it failed because of the walk
      refine ⟨offers, after, List.prefix_rfl, hTaken.holds, hTaken, Or.inl ?_⟩
      cases hWalk : (walk d root).fault? with
      | some fault =>
        rw [hWalk, hError] at hResult
        exact ⟨fault, Except.error.inj hResult, rfl, rfl⟩
      | none =>
        rw [hWalk, hError] at hResult
        cases hResult
    · -- a refusal leaves the set as it was
      have hKept (q : Path) : after.isSubscribed q = mid.isSubscribed q :=
        congrArg (·.contains q) hRefused.kept
      have hError' : e = .engine fault := Except.error.inj (hError.symm.trans hResult)
      refine ⟨taken, mid, ⟨path :: rest, hOffers.symm⟩, fun q => ?_, hTaken,
        Or.inr ⟨path, fault, hError', ⟨rest, ?_⟩, hRefused, ?_⟩⟩
      · rw [hKept]
        exact hTaken.holds q
      · rw [List.append_assoc]
        exact hOffers.symm
      · rw [hKept]
        exact hRefused.new
  · -- where no path is offered twice there is nothing to be left out
    exact Path.dedup_eq_self ((hTree.offers_distinct root).sublist List.filter_sublist)

/-- A directory with two files, a link and a name that is no text. -/
def mixedTree : Disk :=
  ⟨[([.text "a"], .dir), ([.text "a", .text "f"], .file (.text "")),
    ([.text "a", .text "g"], .file (.text "")), ([.text "a", .text "l"], .link (.text "f")),
    ([.text "a", .ofBytes [0xFF]], .file (.text ""))], []⟩

/-- One of the files is subscribed already, under another spelling. If the engine takes everything
the directory and the other file are new; if it refuses the other file only the directory is. -/
theorem mixed_tree_is_added :
    let r : Registrar := (Registrar.subscribe {} ⟨"/a/./f"⟩).1
    let choosy : Registrar := r.withRules { refuses := (· = "/a/g") }
    mixedTree.WellFormed ∧
      (walk mixedTree ⟨"/a"⟩).offers = [⟨"/a"⟩, ⟨"/a/f"⟩, ⟨"/a/g"⟩] ∧
      r.missing (walk mixedTree ⟨"/a"⟩).offers = [⟨"/a"⟩, ⟨"/a/g"⟩] ∧
      ((r.registerTree mixedTree ⟨"/a"⟩).result = .ok 2 ∧
        ((r.registerTree mixedTree ⟨"/a"⟩).registrar.registerTree mixedTree ⟨"/a"⟩).result =
          .ok 0) ∧
      (∃ e, (choosy.registerTree mixedTree ⟨"/a"⟩).result = .error e) ∧
      ∃ taken, taken <+: (walk mixedTree ⟨"/a"⟩).offers ∧
        ∀ q, (choosy.registerTree mixedTree ⟨"/a"⟩).registrar.isSubscribed q = true ↔
          choosy.isSubscribed q = true ∨ ∃ p ∈ taken, p.SameAs q := by
  intro r choosy
  have hTree : mixedTree.WellFormed := by decide +kernel
  have hOffers : (walk mixedTree ⟨"/a"⟩).offers = [⟨"/a"⟩, ⟨"/a/f"⟩, ⟨"/a/g"⟩] := by
    decide +kernel
  have hOk : (r.registerTree mixedTree ⟨"/a"⟩).result = .ok 2 := by decide +kernel
  obtain ⟨e, hError⟩ : ∃ e, (choosy.registerTree mixedTree ⟨"/a"⟩).result = .error e :=
    ⟨.engine ⟨.pathNotFound, []⟩, by decide +kernel⟩
  obtain ⟨hTaken, -, hNew⟩ := registration_adds_tree r mixedTree ⟨"/a"⟩
  obtain ⟨-, hRefused, -⟩ := registration_adds_tree choosy mixedTree ⟨"/a"⟩
  obtain ⟨taken, -, hFront, hHolds, -⟩ := hRefused e hError
  refine ⟨hTree, hOffers, (hNew hTree).trans ?_, ⟨hOk, ?_⟩, ⟨e, hError⟩, taken, hFront, hHolds⟩
  · rw [hOffers]
    decide +kernel
  · exact ((hTaken 2 hOk).2.2.2 {}).1

end TreeWatch
