import Mathlib.Algebra.GroupWithZero.Nat
import TreeWatch.Proofs.PathSets
import TreeWatch.Proofs.Requests

/-!
# The registrar and its engine

The set of the registrar goes by components, the engine goes by spellings, and the engine may refuse
any subscription, in the middle of a walk as well, and complain about any that is dropped. They
stay in step nevertheless: the engine holds the spellings in the set and nothing else, is never
offered a path that it holds under some spelling, and is only asked to drop what it holds.

Main results:
  * `Engine.Tracks.subscribe`, `Engine.Tracks.unsubscribe`: one request
  * `Registrar.InStep.take`: one call of the registrar
  * `registrar_in_step`: any calls on a new registrar
-/

namespace TreeWatch

/-! ## Requests -/

/-- What an engine holds after requests, latest first: what was granted and not dropped since. -/
def heldAfter : List EngineRequest → List String
  | [] => []
  | .subscribe path true :: earlier => heldAfter earlier ++ [path]
  | .subscribe _ false :: earlier => heldAfter earlier
  | .unsubscribe path :: earlier => (heldAfter earlier).filter (· ≠ path)

/-- A subscription is asked for only if no spelling of it is held, one is dropped only if it is
held. -/
def Sparing : List EngineRequest → Prop
  | [] => True
  | .subscribe path _ :: earlier =>
    (∀ other ∈ heldAfter earlier, ¬ (⟨other⟩ : Path).SameAs ⟨path⟩) ∧ Sparing earlier
  | .unsubscribe path :: earlier => path ∈ heldAfter earlier ∧ Sparing earlier

/-- How many subscriptions were granted. -/
def grants (requests : List EngineRequest) : Nat :=
  requests.countP fun
    | .subscribe _ granted => granted
    | .unsubscribe _ => false

namespace Engine

/-- An engine that has not crashed holds given paths, no two of them with the same components, and
came to it sparingly. -/
structure Tracks (e : Engine) (paths : List Path) : Prop where
  uncrashed : e.crash = none
  survives : ∀ path, e.rules.crashes path = false
  held : e.held = heldAfter e.requests
  exact : e.held.Perm (paths.map Path.spelling)
  distinct : paths.Pairwise fun p q => ¬ p.SameAs q
  sparing : Sparing e.requests

variable {e : Engine} {path : Path} {paths : List Path}

/-- A path with components of its own is granted or refused. -/
theorem Tracks.subscribe (h : e.Tracks paths) (hNew : ∀ q ∈ paths, ¬ path.SameAs q) :
    ((e.subscribe path.spelling).2 = .ok () ∧ (e.subscribe path.spelling).1.Tracks (path :: paths) ∧
      grants (e.subscribe path.spelling).1.requests = grants e.requests + 1) ∨
    ∃ error, (e.subscribe path.spelling).2 = .error error ∧
      (e.subscribe path.spelling).1.Tracks paths ∧
      grants (e.subscribe path.spelling).1.requests = grants e.requests := by
  -- what is held are spellings of the paths, so no spelling of a new one is among it
  have hSparing : ∀ other ∈ heldAfter e.requests, ¬ (⟨other⟩ : Path).SameAs ⟨path.spelling⟩ := by
    intro other hOther hSame
    rw [← h.held, h.exact.mem_iff] at hOther
    obtain ⟨q, hq, rfl⟩ := List.mem_map.mp hOther
    exact hNew q hq hSame.symm
  have hHolds : e.holds path.spelling = false := by
    rw [holds, decide_eq_false_iff_not]
    intro hHeld
    rw [h.held] at hHeld
    exact hSparing _ hHeld (Path.SameAs.refl path)
  unfold Engine.subscribe
  dsimp only
  rw [if_neg (by simp [h.uncrashed]), if_neg (by simp [h.survives])]
  cases hRefuses : e.rules.refuses path.spelling with
  | true =>
    rw [if_pos rfl]
    exact Or.inr ⟨_, rfl, ⟨h.uncrashed, h.survives, h.held, h.exact, h.distinct,
      hSparing, h.sparing⟩, rfl⟩
  | false =>
    rw [if_neg (by simp), if_neg (by simp [hHolds])]
    refine Or.inl ⟨rfl, ⟨h.uncrashed, h.survives, ?_, ?_, ?_, hSparing, h.sparing⟩, ?_⟩
    · exact congrArg (· ++ [path.spelling]) h.held
    · exact (List.perm_append_singleton _ _).trans (h.exact.cons _)
    · exact List.pairwise_cons.mpr ⟨hNew, h.distinct⟩
    · simp [grants]

/-- A path that is dropped is gone, whatever the engine answers. -/
theorem Tracks.unsubscribe (h : e.Tracks (path :: paths)) :
    (e.unsubscribe path.spelling).1.Tracks paths ∧
      grants (e.unsubscribe path.spelling).1.requests = grants e.requests := by
  obtain ⟨hApart, hDistinct⟩ := List.pairwise_cons.mp h.distinct
  have hHeld : path.spelling ∈ heldAfter e.requests := by
    rw [← h.held, h.exact.mem_iff]
    exact List.mem_cons_self
  -- another path does not have the spelling, since it does not have the components
  have hOthers :
      (paths.map Path.spelling).filter (· ≠ path.spelling) = paths.map Path.spelling := by
    rw [List.filter_eq_self]
    intro other hOther
    obtain ⟨q, hq, rfl⟩ := List.mem_map.mp hOther
    rw [decide_eq_true_eq]
    intro hSpelling
    refine hApart q hq ?_
    rw [show q = path from congrArg Path.mk hSpelling]
    exact Path.SameAs.refl path
  unfold Engine.unsubscribe
  dsimp only
  rw [if_neg (by simp [h.uncrashed]), if_neg (by simp [h.survives])]
  refine ⟨⟨h.uncrashed, h.survives, ?_, ?_, hDistinct, hHeld, h.sparing⟩, rfl⟩
  · exact congrArg (List.filter (· ≠ path.spelling)) h.held
  · have hExact := h.exact.filter (· ≠ path.spelling)
    rw [List.map_cons, List.filter_cons_of_neg (by simp), hOthers] at hExact
    exact hExact

/-- Paths that are dropped one after another are gone, and the others stay. -/
theorem Tracks.unsubscribeAll (doomed : List Path) : ∀ {e : Engine}, e.Tracks (doomed ++ paths) →
    (doomed.foldl (fun engine q => (engine.unsubscribe q.spelling).1) e).Tracks paths ∧
      grants (doomed.foldl (fun engine q => (engine.unsubscribe q.spelling).1) e).requests =
        grants e.requests := by
  induction doomed with
  | nil => exact fun h => ⟨h, rfl⟩
  | cons path doomed ih =>
    intro e h
    obtain ⟨hNext, hGrants⟩ := h.unsubscribe
    obtain ⟨hRest, hSame⟩ := ih hNext
    exact ⟨hRest, hSame.trans hGrants⟩

/-- In which order the paths are listed does not matter. -/
theorem Tracks.perm {others : List Path} (h : e.Tracks paths) (hPerm : paths.Perm others) :
    e.Tracks others :=
  ⟨h.uncrashed, h.survives, h.held, h.exact.trans (hPerm.map _),
    h.distinct.perm hPerm fun hApart hSame => hApart hSame.symm, h.sparing⟩

end Engine

/-! ## The registrar -/

namespace Registrar

/-- The engine holds what is subscribed. -/
def InStep (r : Registrar) : Prop :=
  r.engine.Tracks r.subscribed.toList

/-- The registrar is in step still, with some paths more, each of them granted. -/
structure Gains (before after : Registrar) (n : Nat) : Prop where
  inStep : after.InStep
  size : after.size = before.size + n
  grants : grants after.engine.requests = grants before.engine.requests + n

variable {r : Registrar}

theorem InStep.gains_none (h : r.InStep) : Gains r r 0 :=
  ⟨h, rfl, rfl⟩

theorem Gains.trans {r₁ r₂ r₃ : Registrar} {m n : Nat} (h : Gains r₁ r₂ m) (h' : Gains r₂ r₃ n) :
    Gains r₁ r₃ (m + n) :=
  ⟨h'.inStep, by rw [h'.size, h.size, Nat.add_assoc], by rw [h'.grants, h.grants, Nat.add_assoc]⟩

/-- What was granted is what the set has more. -/
theorem Gains.balance {before after : Registrar} {n : Nat} (h : Gains before after n) :
    after.size + 0 + TreeWatch.grants before.engine.requests =
      before.size + TreeWatch.grants after.engine.requests := by
  rw [h.size, h.grants]
  omega

/-- **A path** is new and granted, or nothing is gained. -/
theorem InStep.subscribe (h : r.InStep) (path : Path) :
    ∃ new : Bool, Gains r (r.subscribe path).1 new.toNat ∧
      ∀ answer, (r.subscribe path).2 = .ok answer → answer = new := by
  cases hKnown : r.isSubscribed path with
  | true =>
    rw [subscribe_known hKnown]
    refine ⟨false, h.gains_none, fun answer hAnswer => ?_⟩
    cases hAnswer
    rfl
  | false =>
    -- the set is asked by components: no spelling of the path is in it
    have hNew : ∀ q ∈ r.subscribed.toList, ¬ path.SameAs q := fun q hq hSame => by
      rw [isSubscribed, (r.subscribed.contains_iff path).mpr ⟨q, hq, hSame.symm⟩] at hKnown
      cases hKnown
    have hInserted := r.subscribed.insert_perm path hKnown
    rcases Engine.Tracks.subscribe h hNew with ⟨hAnswer, hTracks, hGrants⟩ |
      ⟨error, hAnswer, hTracks, hGrants⟩
    · rw [subscribe_granted hKnown hAnswer]
      exact ⟨true, ⟨hTracks.perm hInserted.symm, hInserted.length_eq, hGrants⟩,
        fun answer hSame => (Except.ok.inj hSame).symm⟩
    · rw [subscribe_refused hKnown hAnswer]
      exact ⟨false, ⟨hTracks, rfl, hGrants⟩, fun answer hSame => nomatch hSame⟩

/-- **A walk** gains what it reports, and may gain some before it is refused one. -/
theorem subscribeAll_gains (visits : List Visit) : ∀ {r : Registrar} (added : Nat), r.InStep →
    ∃ n, Gains r (r.subscribeAll added visits).registrar n ∧
      ∀ answer, (r.subscribeAll added visits).result = .ok answer → answer = added + n := by
  -- by induction on the visits; a refusal ends the walk, but not what was gained before
  induction visits with
  | nil =>
    exact fun added h => ⟨0, h.gains_none, fun answer hAnswer => (Except.ok.inj hAnswer).symm⟩
  | cons visit rest ih =>
    intro r added h
    cases hOffer : visit.offer? with
    | none =>
      obtain ⟨hRegistrar, hResult⟩ := r.subscribeAll_pass rest added hOffer
      rw [hRegistrar, hResult]
      exact ih added h
    | some path =>
      obtain ⟨new, hGains, hNew⟩ := h.subscribe path
      cases hAnswer : (r.subscribe path).2 with
      | error fault =>
        obtain ⟨hRegistrar, hResult⟩ := subscribeAll_refused rest added hOffer hAnswer
        rw [hRegistrar, hResult]
        exact ⟨new.toNat, hGains, fun answer hSame => nomatch hSame⟩
      | ok answer =>
        obtain rfl : answer = new := hNew answer hAnswer
        obtain ⟨hRegistrar, hResult⟩ := subscribeAll_offer rest added hOffer hAnswer
        obtain ⟨n, hRest, hReported⟩ := ih (added + answer.toNat) hGains.inStep
        rw [hRegistrar, hResult]
        refine ⟨answer.toNat + n, hGains.trans hRest, fun total hTotal => ?_⟩
        rw [hReported total hTotal, Nat.add_assoc]

/-- **A tree** gains what it reports. -/
theorem InStep.registerTree (h : r.InStep) (d : Disk) (root : Path) :
    ∃ n, Gains r (r.registerTree d root).registrar n ∧
      ∀ answer, (r.registerTree d root).result = .ok answer → answer = n := by
  obtain ⟨n, hGains, hReported⟩ := subscribeAll_gains (walk d root).visits 0 h
  refine ⟨n, hGains, fun answer hAnswer => ?_⟩
  unfold Registrar.registerTree at hAnswer
  dsimp only at hAnswer
  -- a walk that ended early reports nothing
  split at hAnswer
  · cases hAnswer
  · rw [hReported answer hAnswer, Nat.zero_add]

/-- **A path that is dropped** takes with it as many subscriptions as are reported. -/
theorem InStep.unregister (h : r.InStep) (path : Path) :
    (r.unregister path).1.InStep ∧
      (r.unregister path).1.size + (r.unregister path).2 = r.size ∧
      grants (r.unregister path).1.engine.requests = grants r.engine.requests := by
  -- what is below the path stands together in the set
  have hPerm := r.subscribed.runFrom_append_cut_perm path
  obtain ⟨hTracks, hGrants⟩ :=
    Engine.Tracks.unsubscribeAll (r.subscribed.runFrom path) (h.perm hPerm.symm)
  refine ⟨hTracks, ?_, hGrants⟩
  have hLength := hPerm.length_eq
  rw [List.length_append, Nat.add_comm] at hLength
  exact hLength

/-! ## Calls -/

/-- What a registrar is called for. A tree is walked on the disk as it is then. -/
inductive Action where
  | registerTree (d : Disk) (root : Path)
  | subscribe (path : Path)
  | unregister (path : Path)

/-- A call, with the paths that the engine refuses during it, and those it complains about when they
are dropped. No path is asked for twice in one call, so refusals can come in any pattern. -/
structure Call where
  action : Action
  refuses : String → Bool
  complains : String → Bool

/-- What a call answers. -/
inductive Answer where
  | registered (result : Except WatchError Nat)
  | subscribed (result : Except WatchError Bool)
  | dropped (count : Nat)

/-- How many paths an answer says are new. A failure does not say. -/
def Answer.new? : Answer → Option Nat
  | .registered (.ok n) => some n
  | .subscribed (.ok new) => some new.toNat
  | _ => none

/-- How many subscriptions an answer says were dropped. -/
def Answer.gone : Answer → Nat
  | .dropped n => n
  | _ => 0

/-- Makes a call. -/
def take (r : Registrar) (call : Call) : Registrar × Answer :=
  let r := r.withRules { refuses := call.refuses, complains := call.complains }
  match call.action with
  | .registerTree d root =>
    ((r.registerTree d root).registrar, .registered (r.registerTree d root).result)
  | .subscribe path => ((r.subscribe path).1, .subscribed (r.subscribe path).2)
  | .unregister path => ((r.unregister path).1, .dropped (r.unregister path).2)

/-- Makes calls one after another. -/
def takeAll (r : Registrar) : List Call → Registrar × List Answer
  | [] => (r, [])
  | call :: rest =>
    let others := (r.take call).1.takeAll rest
    (others.1, (r.take call).2 :: others.2)

theorem InStep.withRules (h : r.InStep) (refuses complains : String → Bool) :
    (r.withRules { refuses, complains }).InStep :=
  ⟨h.uncrashed, fun _ => rfl, h.held, h.exact, h.distinct, h.sparing⟩

/-- **A call** leaves the registrar in step. What it grants and what it says was dropped is what the
set has more and less of, and what it says is new was granted. -/
theorem InStep.take (h : r.InStep) (call : Call) :
    (r.take call).1.InStep ∧
      (r.take call).1.size + (r.take call).2.gone + grants r.engine.requests =
        r.size + grants (r.take call).1.engine.requests ∧
      ∀ n, (r.take call).2.new? = some n →
        grants (r.take call).1.engine.requests = grants r.engine.requests + n := by
  have hReady := h.withRules call.refuses call.complains
  obtain ⟨action, refuses, complains⟩ := call
  cases action with
  | registerTree d root =>
    obtain ⟨n, hGains, hReported⟩ := hReady.registerTree d root
    refine ⟨hGains.inStep, hGains.balance, fun m hNew => ?_⟩
    simp only [Answer.new?] at hNew
    split at hNew
    · next answer hAnswer =>
      cases hNew
      rw [hReported _ (Answer.registered.inj hAnswer)]
      exact hGains.grants
    · next hAnswer => cases hAnswer
    · cases hNew
  | subscribe path =>
    obtain ⟨new, hGains, hReported⟩ := hReady.subscribe path
    refine ⟨hGains.inStep, hGains.balance, fun m hNew => ?_⟩
    simp only [Answer.new?] at hNew
    split at hNew
    · next hAnswer => cases hAnswer
    · next answer hAnswer =>
      cases hNew
      rw [hReported _ (Answer.subscribed.inj hAnswer)]
      exact hGains.grants
    · cases hNew
  | unregister path =>
    -- nothing is granted, and no answer says that something is new
    obtain ⟨hInStep, hSize, hGrants⟩ := hReady.unregister path
    refine ⟨hInStep, ?_, fun m hNew => nomatch hNew⟩
    exact congr (congrArg _ hSize) hGrants.symm

/-- Calls leave the registrar in step, and what was granted and not dropped is what it has. -/
theorem InStep.takeAll (calls : List Call) : ∀ {r : Registrar}, r.InStep →
    (r.takeAll calls).1.InStep ∧
      (r.takeAll calls).1.size + ((r.takeAll calls).2.map Answer.gone).sum +
          grants r.engine.requests =
        r.size + grants (r.takeAll calls).1.engine.requests := by
  induction calls with
  | nil => exact fun h => ⟨h, rfl⟩
  | cons call rest ih =>
    intro r h
    obtain ⟨hFirst, hBalance, -⟩ := h.take call
    obtain ⟨hRest, hOthers⟩ := ih hFirst
    refine ⟨hRest, ?_⟩
    simp only [Registrar.takeAll, List.map_cons, List.sum_cons]
    omega

theorem inStep_new : InStep {} :=
  ⟨rfl, fun _ => rfl, rfl, .refl _, .nil, trivial⟩

end Registrar

/-- **The registrar and its engine stay in step** through any calls on a new registrar, whatever the
trees are like at each, and whatever the engine refuses or complains about:
* the engine holds the spellings of the subscribed paths, no two of which have the same components;
  that is what it granted and was not asked to drop since;
* as many paths are subscribed as were granted, less what the calls said was dropped; and a call
  that says how many paths are new was granted as many;
* no path was asked for while it was held in some spelling, and none dropped that was not held. -/
theorem registrar_in_step (calls : List Registrar.Call) (r : Registrar)
    (answers : List Registrar.Answer) (hRun : Registrar.takeAll {} calls = (r, answers)) :
    r.engine.held.Perm (r.subscribed.toList.map Path.spelling) ∧
      r.subscribed.toList.Pairwise (fun p q => ¬ p.SameAs q) ∧
      r.engine.held = heldAfter r.engine.requests ∧
      r.size + (answers.map Registrar.Answer.gone).sum = grants r.engine.requests ∧
      (∀ call n, (r.take call).2.new? = some n →
        grants (r.take call).1.engine.requests = grants r.engine.requests + n) ∧
      Sparing r.engine.requests := by
  obtain ⟨hInStep, hBalance⟩ := Registrar.inStep_new.takeAll calls
  rw [hRun] at hInStep hBalance
  refine ⟨hInStep.exact, hInStep.distinct, hInStep.held, ?_, fun call => (hInStep.take call).2.2,
    hInStep.sparing⟩
  rw [← Nat.zero_add (grants r.engine.requests)]
  exact hBalance

/-- A directory with two files, of which the engine refuses the second; the directory under another
spelling; and its end, with complaints. -/
def refusedTree : List Registrar.Call :=
  let disk : Disk := ⟨[([.text "a"], .dir), ([.text "a", .text "f"], .file (.text "")),
    ([.text "a", .text "g"], .file (.text ""))], []⟩
  [⟨.registerTree disk ⟨"/a"⟩, (· = "/a/g"), fun _ => false⟩,
    ⟨.subscribe ⟨"/a/."⟩, fun _ => false, fun _ => false⟩,
    ⟨.unregister ⟨"/a//f"⟩, fun _ => false, fun _ => true⟩]

theorem refused_tree_stays_in_step :
    (Registrar.takeAll {} refusedTree).1.engine.requests =
        [.unsubscribe "/a/f", .subscribe "/a/g" false, .subscribe "/a/f" true,
          .subscribe "/a" true] ∧
      (Registrar.takeAll {} refusedTree).1.engine.held = ["/a"] ∧
      Sparing (Registrar.takeAll {} refusedTree).1.engine.requests := by
  refine ⟨by decide +kernel, by decide +kernel, ?_⟩
  exact (registrar_in_step refusedTree _ _ rfl).2.2.2.2.2

end TreeWatch
