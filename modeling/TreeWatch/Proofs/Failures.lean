import TreeWatch.Coalescer.Basic
import TreeWatch.Proofs.Requests

/-!
# What a session can fail with

A session reports errors of its engine, of a walk through one of its roots, or that its task
crashed, and no others: it has nothing to do with configurations, and does not look at other
sessions.

Main result:
  * `Coalescer.registerAll_error`: what subscribing the roots fails with
-/

namespace TreeWatch

/-- An error that a session can report. -/
inductive WatchError.OfSession : WatchError → Prop where
  | engine (e : EngineError) : OfSession (.engine e)
  | walk (root : Path) (fault : WalkFault) : OfSession (.walk root fault)
  | aborted (reason : String) : OfSession (.sessionAborted reason)

/-! ## What subscribing fails with -/

theorem Registrar.subscribe_error {r : Registrar} {path : Path} {e : WatchError}
    (h : (r.subscribe path).2 = .error e) : e.OfSession := by
  cases hKnown : r.isSubscribed path with
  | true =>
    rw [Registrar.subscribe_known hKnown] at h
    cases h
  | false =>
    cases hAnswer : (r.engine.subscribe path.spelling).2 with
    | ok granted =>
      rw [Registrar.subscribe_granted hKnown hAnswer] at h
      cases h
    | error fault =>
      rw [Registrar.subscribe_refused hKnown hAnswer] at h
      cases h
      exact .engine fault

theorem Registrar.subscribeAll_error {visits : List Visit} : ∀ {r : Registrar} {added : Nat}
    {e : WatchError}, (r.subscribeAll added visits).result = .error e → e.OfSession := by
  -- by induction on the visits: the first request that is refused is the error
  induction visits with
  | nil =>
    intro r added e h
    cases h
  | cons visit rest ih =>
    intro r added e h
    cases hOffer : visit.offer? with
    | none =>
      rw [(r.subscribeAll_pass rest added hOffer).2] at h
      exact ih h
    | some path =>
      cases hAnswer : (r.subscribe path).2 with
      | ok new =>
        rw [(Registrar.subscribeAll_offer rest added hOffer hAnswer).2] at h
        exact ih h
      | error fault =>
        rw [(Registrar.subscribeAll_refused rest added hOffer hAnswer).2] at h
        cases h
        exact Registrar.subscribe_error hAnswer

theorem Registrar.registerTree_error {r : Registrar} {d : Disk} {root : Path} {e : WatchError}
    (h : (r.registerTree d root).result = .error e) : e.OfSession := by
  unfold Registrar.registerTree at h
  dsimp only at h
  split at h
  · -- the walk ended early
    cases h
    exact .walk _ _
  · exact Registrar.subscribeAll_error h

theorem Coalescer.registerAll_error {d : Disk} {roots : List Path} : ∀ {c : Coalescer}
    {e : WatchError}, (c.registerAll d roots).result = .error e → e.OfSession := by
  induction roots with
  | nil =>
    intro c e h
    cases h
  | cons root rest ih =>
    intro c e h
    rw [Coalescer.registerAll] at h
    dsimp only at h
    split at h
    · next hError =>
      cases h
      exact Registrar.registerTree_error hError
    · exact ih h

end TreeWatch
