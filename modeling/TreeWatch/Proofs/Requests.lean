import TreeWatch.Registrar

/-!
# What the registrar asks for

A path that is subscribed already, in whatever spelling, is not asked for; one that is not is
granted or refused. A walk is gone through visit by visit: one that offers no path is passed by, one
that offers a path counts if the path is new, and one whose path is refused is the last.

Main results:
  * `Registrar.subscribe_known`, `Registrar.subscribe_granted`, `Registrar.subscribe_refused`: the
    three ways to ask for a path
  * `Registrar.subscribeAll_pass`, `Registrar.subscribeAll_offer`, `Registrar.subscribeAll_refused`:
    the first visit of a walk
-/

namespace TreeWatch

/-! ## What a visit offers -/

/-- A visit of something to watch, under a path that is text. -/
def Visit.Offers (visit : Visit) (path : Path) : Prop :=
  visit.entry.isWatched = true ∧ visit.path = path.native

/-- The path that a visit offers for subscription: that of something to watch, if it is text. -/
def Visit.offer? (visit : Visit) : Option Path :=
  if visit.entry.isWatched then visit.path.text?.map Path.mk else none

theorem Visit.offer?_eq_some {visit : Visit} {path : Path} :
    visit.offer? = some path ↔ visit.Offers path := by
  unfold offer? Offers
  cases hWatched : visit.entry.isWatched with
  | false => simp
  | true =>
    cases visit.path with
    | text s =>
      cases path
      simp [ByteString.text?, Path.native]
    | raw bytes notText => simp [ByteString.text?, Path.native]

theorem Visit.not_offers {visit : Visit} (h : visit.offer? = none) (path : Path) :
    ¬ visit.Offers path := by
  rw [← Visit.offer?_eq_some, h]
  nofun

/-- A visit offers one path at most. -/
theorem Visit.offers_iff {visit : Visit} {path : Path} (h : visit.offer? = some path)
    (other : Path) : visit.Offers other ↔ other = path := by
  rw [← Visit.offer?_eq_some, h, Option.some_inj, eq_comm]

namespace Registrar

variable {r : Registrar} {path : Path} {visit : Visit}

/-! ## One path -/

theorem subscribe_known (h : r.isSubscribed path = true) : r.subscribe path = (r, .ok false) :=
  if_pos h

theorem subscribe_granted (h : r.isSubscribed path = false)
    (hGranted : (r.engine.subscribe path.spelling).2 = .ok ()) :
    r.subscribe path =
      (⟨(r.engine.subscribe path.spelling).1, r.subscribed.insert path⟩, .ok true) := by
  unfold subscribe
  unfold isSubscribed at h
  rw [if_neg (by simp [h])]
  generalize r.engine.subscribe path.spelling = asked at hGranted ⊢
  obtain ⟨engine, answer⟩ := asked
  cases hGranted
  rfl

theorem subscribe_refused {fault : EngineError} (h : r.isSubscribed path = false)
    (hRefused : (r.engine.subscribe path.spelling).2 = .error fault) :
    r.subscribe path =
      ({ r with engine := (r.engine.subscribe path.spelling).1 }, .error (.engine fault)) := by
  unfold subscribe
  unfold isSubscribed at h
  rw [if_neg (by simp [h])]
  generalize r.engine.subscribe path.spelling = asked at hRefused ⊢
  obtain ⟨engine, answer⟩ := asked
  cases hRefused
  rfl

/-! ## The first visit of a walk -/

/-- A visit that offers nothing is passed by. -/
theorem subscribeAll_pass (r : Registrar) (rest : List Visit) (added : Nat)
    (h : visit.offer? = none) :
    (r.subscribeAll added (visit :: rest)).registrar = (r.subscribeAll added rest).registrar ∧
      (r.subscribeAll added (visit :: rest)).result = (r.subscribeAll added rest).result := by
  rw [subscribeAll]
  unfold Visit.offer? at h
  cases hWatched : visit.entry.isWatched with
  | false => exact ⟨rfl, rfl⟩
  | true =>
    rw [if_pos hWatched] at h
    cases hPath : visit.path with
    | raw bytes notText => exact ⟨rfl, rfl⟩
    | text s =>
      rw [hPath] at h
      cases h

/-- A visit that offers a path has it subscribed, and counts if it is new. -/
theorem subscribeAll_offer (rest : List Visit) {new : Bool} (added : Nat)
    (h : visit.offer? = some path) (hNew : (r.subscribe path).2 = .ok new) :
    (r.subscribeAll added (visit :: rest)).registrar =
        ((r.subscribe path).1.subscribeAll (added + new.toNat) rest).registrar ∧
      (r.subscribeAll added (visit :: rest)).result =
        ((r.subscribe path).1.subscribeAll (added + new.toNat) rest).result := by
  obtain ⟨hWatched, hPath⟩ := Visit.offer?_eq_some.mp h
  rw [subscribeAll, if_pos hWatched, hPath]
  dsimp only [Path.native]
  generalize r.subscribe path = answer at hNew
  obtain ⟨next, result⟩ := answer
  cases hNew
  cases new with
  | true => exact ⟨rfl, rfl⟩
  | false => exact ⟨rfl, rfl⟩

/-- A visit that offers a path which is refused is the last one. -/
theorem subscribeAll_refused (rest : List Visit) {e : WatchError} (added : Nat)
    (h : visit.offer? = some path) (hError : (r.subscribe path).2 = .error e) :
    (r.subscribeAll added (visit :: rest)).registrar = (r.subscribe path).1 ∧
      (r.subscribeAll added (visit :: rest)).result = .error e := by
  obtain ⟨hWatched, hPath⟩ := Visit.offer?_eq_some.mp h
  rw [subscribeAll, if_pos hWatched, hPath]
  dsimp only [Path.native]
  generalize r.subscribe path = answer at hError
  obtain ⟨next, result⟩ := answer
  cases hError
  exact ⟨rfl, rfl⟩

end Registrar

end TreeWatch
