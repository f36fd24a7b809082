import TreeWatch.Path.Basic

/-!
# The status of a controller

What a controller shows to the outside at any moment, also while an operation is going on: where
it is in its lifecycle, and what is watched.
-/

namespace TreeWatch

/-- Where a controller is in its lifecycle. -/
inductive Lifecycle where
  /-- There is no session. -/
  | stopped
  /-- A session is being set up. -/
  | starting
  /-- A session is watching. -/
  | running
  /-- The session is flushing and winding down. -/
  | stopping
  deriving DecidableEq, Repr

/-- The name of a state. -/
def Lifecycle.name : Lifecycle → String
  | .stopped => "stopped"
  | .starting => "starting"
  | .running => "running"
  | .stopping => "stopping"

/-- The status: the state, and the directories and grace period of the session in it. -/
structure Status where
  state : Lifecycle := .stopped
  dirs : List Path := []
  grace : Option UInt64 := none
  deriving DecidableEq, Repr

/-- Whether a session is watching. -/
def Status.isRunning (s : Status) : Bool :=
  s.state = .running

end TreeWatch
