import TreeWatch.Coalescer.Basic
import TreeWatch.Config.Validation
import TreeWatch.Proofs.Dedup
import TreeWatch.Proofs.Lookups
import TreeWatch.Proofs.Registry
import TreeWatch.Proofs.Validation
import TreeWatch.Proofs.Walks

/-!
# What a registration covers

A registration that succeeds went through the tree of every root to the end, and whatever can be
watched there was offered to the engine, which took it. So the engine holds all that lies below a
root, however the root is spelled.

Two roots are an exception although they pass the check of directories. A root that is a link is
listed as the link, which is nothing to watch, so the directory it leads to is not subscribed; and
a root that is named `-` is not walked at all.

Main results:
  * `treeVisits_complete`: what the tree of a root lists
  * `Coalescer.registerAll_offers`: what is offered on the way is subscribed in the end
  * `Coalescer.registerRoots_covers`: what the engine holds of a root
-/

namespace TreeWatch

/-! ## The tree of a root -/

section Trees

variable {d : Disk} {p : Path} {visits : List Visit}

/-- A walk that nothing ended early went through all of the tree. -/
theorem walkThrough_complete : ∀ {visits : List Visit}, (walkThrough visits).fault? = none →
    (walkThrough visits).visits = visits
  | [], _ => rfl
  | visit :: rest, h => by
    unfold walkThrough at h ⊢
    split at h
    · cases h
    · next hOpens =>
      rw [if_neg hOpens]
      exact congrArg (visit :: ·) (walkThrough_complete h)

theorem treeVisits_of_walk (h : (walk d p).fault? = none) (hDash : ¬ p.SameAs ⟨"-"⟩) :
    treeVisits d p = .ok (walk d p).visits := by
  unfold walk at h ⊢
  rw [if_neg hDash] at h ⊢
  cases hVisits : treeVisits d p with
  | error fault => rw [hVisits] at h; cases h
  | ok visits =>
    rw [hVisits] at h
    exact congrArg Except.ok (walkThrough_complete h).symm

theorem rootVisit_unlinked {e : Entry} (h : ∀ target, e ≠ .link target) :
    rootVisit d p e = .ok (⟨p.native, e⟩, e.isDir) := by
  cases e with
  | link target => exact absurd rfl (h target)
  | dir | file contents | socket | device => rfl

/-- A root that leads to a directory is gone into. -/
theorem rootVisit_deeper {e : Entry} {place : Place} (hStat : d.linkStat p.native = .ok e)
    (hFind : d.find .target p.native = .ok place) (hDir : d.get? place = some .dir) :
    ∃ first, rootVisit d p e = .ok (first, true) := by
  by_cases hLink : ∃ target, e = .link target
  · obtain ⟨target, rfl⟩ := hLink
    have hTarget : d.stat p.native = .ok .dir := by
      unfold Disk.stat
      rw [hFind]
      show Except.ok ((d.get? place).getD .dir) = _
      rw [hDir]
      rfl
    refine ⟨⟨p.native, .link target⟩, ?_⟩
    unfold rootVisit
    rw [hTarget]
    rfl
  · rw [not_exists] at hLink
    -- what is no link is what is found, which is a directory
    unfold Disk.linkStat at hStat
    cases hHere : d.find .entry p.native with
    | error fault => rw [hHere] at hStat; cases hStat
    | ok found =>
      rw [hHere] at hStat
      cases hStat
      have hNoLink (target : ByteString) : d.get? found ≠ some (.link target) := by
        intro hThere
        exact hLink target (by rw [hThere]; rfl)
      cases (Disk.find_target hHere hNoLink).symm.trans hFind
      refine ⟨⟨p.native, .dir⟩, ?_⟩
      rw [hDir]
      rfl

/-- **The tree of a root** lists the root, unless it is a link, and all that lies below. -/
theorem treeVisits_complete (h : treeVisits d p = .ok visits) :
    (∃ e, d.linkStat p.native = .ok e ∧
      ((∀ target, e ≠ .link target) → ⟨p.native, e⟩ ∈ visits)) ∧
    ∀ place, d.find .target p.native = .ok place → d.get? place = some .dir →
      ∀ visit ∈ d.visitsBelow place p, visit ∈ visits := by
  obtain ⟨e, first, deeper, hStat, hRoot, hListed⟩ := Disk.treeVisits_eq_ok h
  have hFirst : first ∈ visits := by
    rcases hListed with ⟨-, rfl⟩ | ⟨-, place, -, rfl⟩
    · exact List.mem_singleton_self first
    · exact List.mem_cons_self
  refine ⟨⟨e, hStat, fun hLink => ?_⟩, fun place hFind hDir visit hVisit => ?_⟩
  · rw [rootVisit_unlinked hLink] at hRoot
    cases hRoot
    exact hFirst
  · -- a root that leads to a directory is gone into
    obtain ⟨other, hDeeper⟩ := rootVisit_deeper hStat hFind hDir
    cases hRoot.symm.trans hDeeper
    rcases hListed with ⟨hShallow, -⟩ | ⟨-, found, hFound, rfl⟩
    · cases hShallow
    · cases hFound.symm.trans hFind
      exact List.mem_cons_of_mem _ hVisit

end Trees

/-! ## The engine and the set -/

/-- The engine holds a path in some spelling. -/
def Engine.Watches (e : Engine) (p : Path) : Prop :=
  ∃ s ∈ e.held, (⟨s⟩ : Path).SameAs p

theorem Engine.Watches.of_sameAs {e : Engine} {p q : Path} (h : e.Watches p) (hSame : p.SameAs q) :
    e.Watches q := by
  obtain ⟨s, hHeld, hPath⟩ := h
  exact ⟨s, hHeld, hPath.trans hSame⟩

/-- A request that is granted is held, with all that was held before. -/
theorem Engine.Willing.held_subscribe {e : Engine} (h : e.Willing) (path : String) :
    path ∈ (e.subscribe path).1.held ∧ ∀ s ∈ e.held, s ∈ (e.subscribe path).1.held := by
  unfold Engine.subscribe
  dsimp only
  rw [if_neg (by simp [h.uncrashed]), if_neg (by simp [h.survives]), if_neg (by simp [h.accepts])]
  split
  · next hHolds => exact ⟨of_decide_eq_true hHolds, fun s hs => hs⟩
  · exact ⟨by simp, fun s hs => List.mem_append_left _ hs⟩

namespace Registrar

variable {r : Registrar} {d : Disk} {root : Path}

/-- The engine holds all that the registrar has in its set. -/
def Backed (r : Registrar) : Prop :=
  ∀ q, r.isSubscribed q = true → r.engine.Watches q

theorem Backed.subscribe (hBacked : r.Backed) (h : r.engine.Willing) (path : Path) :
    (r.subscribe path).1.Backed := by
  cases hKnown : r.isSubscribed path with
  | true => rwa [subscribe_known hKnown]
  | false =>
    obtain ⟨hHeld, hKept⟩ := h.held_subscribe path.spelling
    rw [subscribe_granted hKnown (h.subscribe path.spelling).2]
    intro q hq
    rcases (r.subscribed.contains_insert path q).mp hq with hOld | hSame
    · obtain ⟨s, hs, hPath⟩ := hBacked q hOld
      exact ⟨s, hKept s hs, hPath⟩
    · exact ⟨path.spelling, hHeld, hSame⟩

theorem Backed.subscribeAll (visits : List Visit) : ∀ {r : Registrar} (added : Nat), r.Backed →
    r.engine.Willing → (r.subscribeAll added visits).registrar.Backed := by
  induction visits with
  | nil => exact fun added hBacked h => hBacked
  | cons visit rest ih =>
    intro r added hBacked h
    cases hOffer : visit.offer? with
    | none =>
      rw [(r.subscribeAll_pass rest added hOffer).1]
      exact ih added hBacked h
    | some path =>
      obtain ⟨new, hNew, hGrown⟩ := subscribe_spec h path
      rw [(subscribeAll_offer rest added hOffer hNew).1]
      exact ih _ (hBacked.subscribe h path) hGrown.willing

/-- A tree that is registered was walked to its end, and what the walk offered is subscribed. -/
theorem registerTree_offers {n : Nat} (hBacked : r.Backed) (h : r.engine.Willing)
    (hResult : (r.registerTree d root).result = .ok n) :
    (r.registerTree d root).registrar.Backed ∧ (walk d root).fault? = none ∧
      Grown r (r.registerTree d root).registrar fun q =>
        ∃ visit ∈ (walk d root).visits, ∃ path, visit.Offers path ∧ path.SameAs q := by
  obtain ⟨m, hTaken, hGrown⟩ := subscribeAll_spec (walk d root).visits 0 h
  refine ⟨hBacked.subscribeAll _ 0 h, ?_, hGrown⟩
  unfold registerTree at hResult
  simp only [hTaken] at hResult
  split at hResult
  · cases hResult
  · next hNone =>
    cases hFault : (walk d root).fault? with
    | none => rfl
    | some fault => exact absurd hFault (hNone m fault rfl)

end Registrar

namespace Coalescer

variable {d : Disk}

/-- **What is offered** on the walks through the roots is subscribed in the end. -/
theorem registerAll_offers {todo : List Path} : ∀ {c : Coalescer}, c.registrar.engine.Willing →
    c.registrar.Backed → (c.registerAll d todo).result = .ok () →
      (c.registerAll d todo).coalescer.registrar.Backed ∧
      (∀ q, c.registrar.isSubscribed q = true →
        (c.registerAll d todo).coalescer.registrar.isSubscribed q = true) ∧
      ∀ root ∈ todo, (walk d root).fault? = none ∧ ∀ visit ∈ (walk d root).visits, ∀ path,
        visit.Offers path →
          (c.registerAll d todo).coalescer.registrar.isSubscribed path = true := by
  induction todo with
  | nil => exact fun h hBacked _ => ⟨hBacked, fun q hq => hq, by simp⟩
  | cons first rest ih =>
    intro c h hBacked hResult
    rw [registerAll] at hResult ⊢
    cases hTree : (c.registrar.registerTree d first).result with
    | error e => simp only [hTree] at hResult; cases hResult
    | ok n =>
      simp only [hTree] at hResult ⊢
      obtain ⟨hBacked', hFault, hGrown⟩ := Registrar.registerTree_offers hBacked h hTree
      obtain ⟨hDone, hKept, hRest⟩ := @ih
        { c with registrar := (c.registrar.registerTree d first).registrar }
        hGrown.willing hBacked' hResult
      -- the set only grows, so what the first tree has got is still in it at the end
      refine ⟨hDone, fun q hq => hKept q ((hGrown.holds q).mpr (Or.inl hq)), fun root hRoot => ?_⟩
      rcases List.mem_cons.mp hRoot with rfl | hRoot
      · refine ⟨hFault, fun visit hVisit path hOffers => hKept path ?_⟩
        exact (hGrown.holds path).mpr
          (Or.inr ⟨visit, hVisit, path, hOffers, Path.SameAs.refl path⟩)
      · exact hRest root hRoot

end Coalescer

/-! ## Roots -/

theorem Path.SameAs.under {p q : Path} (h : p.SameAs q) {names : List String}
    (hNames : ∀ name ∈ names, IsName name) : (p.under names).SameAs (q.under names) := by
  unfold Path.SameAs at h ⊢
  rw [Path.components_under hNames, Path.components_under hNames, h]

section Roots

variable {d : Disk} {dirs : List Path} {root : Path} {e : Engine}

/-- What has passed the check leads to a directory. -/
theorem stat_of_validateDirs (h : validateDirs d dirs = .ok ()) (hRoot : root ∈ dirs) :
    d.stat root.native = .ok .dir := by
  have hDir : d.isDir root = true := (validateDirs_eq_ok.mp h).2 root hRoot
  unfold Disk.isDir at hDir
  split at hDir
  · assumption
  · cases hDir

/-- What an engine should hold of a root in a list of directories: the root itself, if the list has
it in no spelling that is a link, and all directories and regular files below the place where it
leads, under paths that are text. -/
structure Covers (d : Disk) (dirs : List Path) (root : Path) (e : Engine) : Prop where
  itself : (∀ other ∈ dirs, other.SameAs root → ∀ target,
    d.linkStat other.native ≠ .ok (.link target)) → e.Watches root
  below : ∀ place texts entry, d.find .target root.native = .ok place → texts ≠ [] →
    d.get? (place ++ texts.map .text) = some entry → entry.isWatched = true →
      e.Watches (root.under texts)

/-- **What the engine holds of a root** when all roots have been registered. -/
theorem Coalescer.registerRoots_covers {c : Coalescer} (hSound : d.Sound)
    (h : c.registrar.engine.Willing) (hBacked : c.registrar.Backed)
    (hRoots : c.roots = Path.dedup dirs) (hResult : (c.registerRoots d).result = .ok ())
    (hValid : validateDirs d dirs = .ok ()) (hRoot : root ∈ dirs) (hDash : ¬ root.SameAs ⟨"-"⟩) :
    Covers d dirs root (c.registerRoots d).coalescer.registrar.engine := by
  -- what was walked is some spelling of the root
  obtain ⟨first, hFirst, hSame⟩ := Path.exists_mem_dedup hRoot
  obtain ⟨hHeld, -, hOffered⟩ := registerAll_offers h hBacked hResult
  obtain ⟨hFault, hOffers⟩ := hOffered first (hRoots ▸ hFirst)
  have hTaken {visit : Visit} {path : Path} (hVisit : visit ∈ (walk d first).visits)
      (hOffer : visit.Offers path) :
      (c.registerRoots d).coalescer.registrar.engine.Watches path :=
    hHeld path (hOffers visit hVisit path hOffer)
  obtain ⟨⟨entry, hStat, hItself⟩, hBelow⟩ := treeVisits_complete
    (treeVisits_of_walk hFault fun hDash' => hDash (hSame.symm.trans hDash'))
  obtain ⟨found, hFound, hEntry⟩ : ∃ found, d.find .entry first.native = .ok found ∧
      (d.get? found).getD .dir = entry := by
    unfold Disk.linkStat at hStat
    cases hFind : d.find .entry first.native with
    | error fault => rw [hFind] at hStat; cases hStat
    | ok found => rw [hFind] at hStat; exact ⟨found, rfl, Except.ok.inj hStat⟩
  constructor
  · intro hNoLink
    have hUnlinked (target : ByteString) : entry ≠ .link target := by
      rintro rfl
      exact hNoLink first (Path.mem_of_mem_dedup hFirst) hSame target hStat
    have hTarget := Disk.find_target hFound fun target hLink => hUnlinked target (by
      rw [← hEntry, hLink]
      rfl)
    -- the root passed the check, so the entry is a directory
    have hDir := stat_of_validateDirs hValid (Path.mem_of_mem_dedup hFirst)
    unfold Disk.stat at hDir
    rw [hTarget] at hDir
    obtain rfl : entry = .dir := hEntry.symm.trans (Except.ok.inj hDir)
    exact (hTaken (hItself hUnlinked) ⟨rfl, rfl⟩).of_sameAs hSame
  · intro place texts other hFind hTexts hOther hWatched
    have hTree := hSound.toWellFormed
    have hNames : ∀ name ∈ texts, IsName name := fun name hName =>
      (hTree.valid_of_get? hOther (.text name)
        (List.mem_append_right _ (List.mem_map_of_mem hName))).isName
    have hPlace : d.get? place = some .dir := hTree.ancestor (by simp [hTexts]) hOther
    -- all spellings of the root lead to the same directory
    have hLocate := Disk.find_eq_ok.mp hFind
    have hEnters := (hSound.enters_iff (Disk.usable_of_locate hLocate)
      (Disk.nonempty_of_locate hLocate)).mpr ⟨hFind, hPlace⟩
    have hFirstLocate := Disk.find_eq_ok.mp hFound
    obtain ⟨hThere, -⟩ := (hSound.enters_iff (Disk.usable_of_locate hFirstLocate)
      (Disk.nonempty_of_locate hFirstLocate)).mp (hEnters.of_sameAs hSame.symm)
    obtain ⟨visit, hVisit, hOffer⟩ := (hTree.offers_below place first (first.under texts)).mpr
      ⟨texts, hTexts, rfl, hNames, other, hOther, hWatched⟩
    exact (hTaken (hBelow place hThere hPlace visit hVisit) hOffer).of_sameAs (hSame.under hNames)

end Roots

end TreeWatch
