import TreeWatch.Proofs.PathSets
import TreeWatch.Proofs.Requests

/-!
# The registrar with a willing engine

An engine that refuses nothing and does not crash (`Engine.Willing`) stays one, and every request
of the registrar comes off: what is subscribed grows by exactly the entries of a walk that can be
watched, and shrinks by exactly what lies below a path.

Main results:
  * `Registrar.subscribeAll_spec`: a walk is subscribed as a whole
  * `Registrar.unregister_spec`: a path is dropped with everything below it
-/

namespace TreeWatch

/-- An engine that takes every request. -/
structure Engine.Willing (e : Engine) : Prop where
  uncrashed : e.crash = none
  accepts : ∀ path, e.rules.refuses path = false
  survives : ∀ path, e.rules.crashes path = false

namespace Engine

variable {e : Engine}

theorem Willing.subscribe (h : e.Willing) (path : String) :
    (e.subscribe path).1.Willing ∧ (e.subscribe path).2 = .ok () := by
  unfold Engine.subscribe
  dsimp only
  rw [if_neg (by simp [h.uncrashed]), if_neg (by simp [h.survives]), if_neg (by simp [h.accepts])]
  split
  · exact ⟨⟨h.uncrashed, h.accepts, h.survives⟩, rfl⟩
  · exact ⟨⟨h.uncrashed, h.accepts, h.survives⟩, rfl⟩

theorem Willing.unsubscribe (h : e.Willing) (path : String) :
    (e.unsubscribe path).1.Willing := by
  unfold Engine.unsubscribe
  dsimp only
  rw [if_neg (by simp [h.uncrashed]), if_neg (by simp [h.survives])]
  exact ⟨h.uncrashed, h.accepts, h.survives⟩

theorem Willing.unsubscribeAll (h : e.Willing) (paths : List Path) :
    (paths.foldl (fun engine q => (engine.unsubscribe q.spelling).1) e).Willing := by
  induction paths generalizing e with
  | nil => exact h
  | cons path paths ih => exact ih (h.unsubscribe path.spelling)

end Engine

namespace Registrar

variable {r : Registrar}

/-- The registrar goes on with a willing engine, and holds what it held and some new paths. -/
structure Grown (before after : Registrar) (new : Path → Prop) : Prop where
  willing : after.engine.Willing
  holds : ∀ q, after.isSubscribed q = true ↔ before.isSubscribed q = true ∨ new q

theorem Grown.trans {r₁ r₂ r₃ : Registrar} {new more : Path → Prop} (h : Grown r₁ r₂ new)
    (h' : Grown r₂ r₃ more) : Grown r₁ r₃ fun q => new q ∨ more q :=
  ⟨h'.willing, fun q => by rw [h'.holds q, h.holds q, or_assoc]⟩

theorem subscribe_spec (h : r.engine.Willing) (path : Path) :
    ∃ new, (r.subscribe path).2 = .ok new ∧ Grown r (r.subscribe path).1 path.SameAs := by
  cases hKnown : r.isSubscribed path with
  | true =>
    rw [subscribe_known hKnown]
    refine ⟨false, rfl, h, fun q => ⟨Or.inl, ?_⟩⟩
    rintro (hq | hSame)
    · exact hq
    · exact (r.subscribed.contains_congr hSame).symm.trans hKnown
  | false =>
    obtain ⟨hWilling, hGranted⟩ := h.subscribe path.spelling
    rw [subscribe_granted hKnown hGranted]
    exact ⟨true, rfl, hWilling, fun q => r.subscribed.contains_insert path q⟩

/-- **A walk** is subscribed as a whole. -/
theorem subscribeAll_spec (visits : List Visit) : ∀ {r : Registrar} (added : Nat),
    r.engine.Willing → ∃ n, (r.subscribeAll added visits).result = .ok n ∧
      Grown r (r.subscribeAll added visits).registrar fun q =>
        ∃ visit ∈ visits, ∃ path, visit.Offers path ∧ path.SameAs q := by
  induction visits with
  | nil => exact fun added h => ⟨added, rfl, h, fun q => by simp [subscribeAll]⟩
  | cons visit rest ih =>
    intro r added h
    cases hOffer : visit.offer? with
    | none =>
      obtain ⟨hRegistrar, hResult⟩ := r.subscribeAll_pass rest added hOffer
      obtain ⟨n, hOk, hGrown⟩ := ih added h
      refine ⟨n, hResult.trans hOk, hRegistrar ▸ hGrown.willing, fun q => ?_⟩
      rw [hRegistrar, hGrown.holds q]
      simp [Visit.not_offers hOffer]
    | some path =>
      obtain ⟨new, hNew, hFirst⟩ := subscribe_spec h path
      obtain ⟨hRegistrar, hResult⟩ := subscribeAll_offer rest added hOffer hNew
      obtain ⟨n, hOk, hRest⟩ := ih (added + new.toNat) hFirst.willing
      refine ⟨n, hResult.trans hOk, hRegistrar ▸ hRest.willing, fun q => ?_⟩
      rw [hRegistrar, (hFirst.trans hRest).holds q]
      simp [Visit.offers_iff hOffer]

/-- **A path** is dropped with everything below it. -/
theorem unregister_spec (h : r.engine.Willing) (path : Path) :
    (r.unregister path).1.engine.Willing ∧
      ∀ q, (r.unregister path).1.isSubscribed q = true ↔
        r.isSubscribed q = true ∧ q.startsWith path = false :=
  ⟨h.unsubscribeAll _, fun q => r.subscribed.contains_cut path q⟩

end Registrar

end TreeWatch
