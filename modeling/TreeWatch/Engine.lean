import TreeWatch.Error

/-!
# The notification engine

The engine takes subscriptions to single paths, by their spelling, and delivers events for them.
It may refuse a path; whether it does is up to its `Rules`. Dropping a subscription that it does
not hold is an error, and it may complain about one that it does hold; either way it no longer holds
it, so the error concerns nobody.

An engine can also crash over a request. A crashed engine refuses everything and holds what it
held.
-/

namespace TreeWatch

/-- How an engine takes requests: which paths it refuses, which make it crash, and which it drops
with an error. -/
structure Rules where
  refuses : String → Bool := fun _ => false
  crashes : String → Bool := fun _ => false
  complains : String → Bool := fun _ => false

/-- A request made to an engine. Of a subscription it is known whether it was granted. -/
inductive EngineRequest where
  | subscribe (path : String) (granted : Bool)
  | unsubscribe (path : String)
  deriving DecidableEq, Repr

/-- A connected engine: the paths it holds, in the order they came, the requests it was given,
latest first, and the request it crashed over, in words. -/
structure Engine where
  rules : Rules := {}
  held : List String := []
  requests : List EngineRequest := []
  crash : Option String := none

namespace Engine

/-- Whether a subscription is held. -/
def holds (e : Engine) (path : String) : Bool :=
  path ∈ e.held

/-- The engine without a subscription. -/
def forget (e : Engine) (path : String) : Engine :=
  { e with held := e.held.filter (· ≠ path) }

/-- The answer to a request that crashes the engine, or comes after that. -/
def gone : EngineError :=
  ⟨.other "engine crashed", []⟩

/-- Asks for a subscription. -/
def subscribe (e : Engine) (path : String) : Engine × Except EngineError Unit :=
  let noted (granted : Bool) := { e with requests := .subscribe path granted :: e.requests }
  if e.crash.isSome then (e, .error gone)
  else if e.rules.crashes path then
    ({ noted false with crash := some ("subscribe " ++ path) }, .error gone)
  else if e.rules.refuses path then (noted false, .error ⟨.pathNotFound, []⟩)
  else if e.holds path then (noted true, .ok ())
  else ({ noted true with held := e.held ++ [path] }, .ok ())

/-- Drops a subscription, if it is held. -/
def unsubscribe (e : Engine) (path : String) : Engine × Except EngineError Unit :=
  let noted := { e with requests := .unsubscribe path :: e.requests }
  if e.crash.isSome then (e, .error gone)
  else if e.rules.crashes path then
    ({ noted with crash := some ("unsubscribe " ++ path) }, .error gone)
  else
    (noted.forget path,
      if e.holds path && !e.rules.complains path then .ok ()
      else .error ⟨.watchNotFound, []⟩)

end Engine

end TreeWatch
