import TreeWatch.Engine
import TreeWatch.Notice
import TreeWatch.Path.Set
import TreeWatch.Walk

/-!
# The registrar

The registrar keeps the set of paths that the engine is subscribed to in step with the tree: a new
directory is walked and everything in it subscribed, a path that goes away is dropped with
everything below it. A path is offered to the engine only if no spelling of it is in the set.
-/

namespace TreeWatch

/-- The engine and the paths it is subscribed to. -/
structure Registrar where
  engine : Engine := {}
  subscribed : PathSet := {}

namespace Registrar

/-- Subscribes a path, unless it is already. The answer says whether it is new. -/
def subscribe (r : Registrar) (path : Path) : Registrar × Except WatchError Bool :=
  if r.subscribed.contains path then (r, .ok false)
  else
    match r.engine.subscribe path.spelling with
    | (engine, .ok ()) => (⟨engine, r.subscribed.insert path⟩, .ok true)
    | (engine, .error e) => ({ r with engine }, .error (.engine e))

/-- How a registration ended: how many paths are new, or what stopped it. -/
structure Registered where
  registrar : Registrar
  result : Except WatchError Nat
  notices : List Notice := []

/-- Subscribes the directories and regular files among the entries of a walk, in order, on top of a
count. What is not text is skipped with a notice; a refusal ends the registration. -/
def subscribeAll (r : Registrar) (added : Nat) : List Visit → Registered
  | [] => ⟨r, .ok added, []⟩
  | visit :: rest =>
    if visit.entry.isWatched then
      match visit.path with
      | .text s =>
        match r.subscribe ⟨s⟩ with
        | (r, .ok true) =>
          let others := r.subscribeAll (added + 1) rest
          { others with notices := .subscribed ⟨s⟩ :: others.notices }
        | (r, .ok false) => r.subscribeAll added rest
        | (r, .error e) => ⟨r, .error e, []⟩
      | path =>
        let others := r.subscribeAll added rest
        { others with notices := .skippedEntry (.notText path) :: others.notices }
    else r.subscribeAll added rest

/-- Subscribes a root and everything below it. What was subscribed before a failure stays. -/
def registerTree (r : Registrar) (d : Disk) (root : Path) : Registered :=
  let walked := walk d root
  let tree := r.subscribeAll 0 walked.visits
  let result :=
    match tree.result, walked.fault? with
    | .ok _, some fault => .error (.walk root fault)
    | result, _ => result
  { tree with result, notices := .walking root :: tree.notices }

/-- Drops a path and everything below it, whatever the engine answers. The answer is how many
subscriptions that were. -/
def unregister (r : Registrar) (path : Path) : Registrar × Nat :=
  let run := r.subscribed.runFrom path
  (⟨run.foldl (fun engine q => (engine.unsubscribe q.spelling).1) r.engine, r.subscribed.cut path⟩,
    run.length)

/-- Whether a path is subscribed. -/
def isSubscribed (r : Registrar) (path : Path) : Bool :=
  r.subscribed.contains path

/-- How many paths are subscribed. -/
def size (r : Registrar) : Nat :=
  r.subscribed.size

/-- The registrar with an engine that takes requests by other rules. -/
def withRules (r : Registrar) (rules : Rules) : Registrar :=
  { r with engine := { r.engine with rules } }

end Registrar

end TreeWatch
