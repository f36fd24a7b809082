import TreeWatch.Attribution
import TreeWatch.Change
import TreeWatch.Counter.Bump
import TreeWatch.Path.Dedup
import TreeWatch.Registrar

/-!
# The coalescer

The coalescer turns events into bumps. Every change is applied to the subscriptions and marks the
root it belongs to as dirty; each mark moves the one deadline to a grace period from now. A flush
bumps every dirty root once, in the order in which they became dirty, and leaves none.
-/

namespace TreeWatch

/-- The state of a watch over a list of roots. Times are in milliseconds. -/
structure Coalescer where
  registrar : Registrar
  roots : List Path
  grace : UInt64
  /-- The roots with changes that no flush has covered, in the order in which they became dirty. -/
  dirty : List Path := []
  /-- When the next flush is due, if one is. -/
  deadline : Option Nat := none

namespace Coalescer

/-- A watch over roots of which nothing is subscribed yet. -/
def new (registrar : Registrar) (roots : List Path) (grace : UInt64) : Coalescer :=
  { registrar, roots, grace }

/-- How subscribing the roots ended. -/
structure Registered where
  coalescer : Coalescer
  result : Except WatchError Unit
  notices : List Notice

/-- Subscribes roots, one tree after another, up to the first failure. -/
def registerAll (c : Coalescer) (d : Disk) : List Path → Registered
  | [] => ⟨c, .ok (), []⟩
  | root :: rest =>
    let first := c.registrar.registerTree d root
    let c := { c with registrar := first.registrar }
    match first.result with
    | .error e => ⟨c, .error e, first.notices⟩
    | .ok added =>
      let others := c.registerAll d rest
      { others with notices := first.notices ++ .registered root added :: others.notices }

/-- Subscribes every root with all that lies below it. -/
def registerRoots (c : Coalescer) (d : Disk) : Registered :=
  c.registerAll d c.roots

/-! ## Events -/

/-- Subscribes a path that appeared. The answer is `none` if it is gone again. -/
def track (c : Coalescer) (d : Disk) (path : Path) : Option Coalescer × List Notice :=
  match d.linkStat path.native with
  | .error fault => (none, [.statFailed path fault])
  | .ok .dir =>
    let tree := c.registrar.registerTree d path
    let failed :=
      match tree.result with
      | .ok _ => []
      | .error e => [.newDirFailed path e]
    (some { c with registrar := tree.registrar }, tree.notices ++ failed)
  | .ok (.file _) =>
    match c.registrar.subscribe path with
    | (registrar, .ok new) => (some { c with registrar }, if new then [.subscribed path] else [])
    | (registrar, .error e) => (some { c with registrar }, [.newFileFailed path e])
  | .ok _ => (some c, [])

/-- Marks the root of a path as dirty, and moves the deadline. -/
def mark (c : Coalescer) (now : Nat) (path : Path) : Coalescer × List Notice :=
  match resolveRoot path c.roots with
  | none => (c, [.unattributed path])
  | some root =>
    let dirty := Path.addNew c.dirty root
    ({ c with dirty, deadline := some (now + c.grace.toNat) },
      if dirty = c.dirty then [] else [.becameDirty root])

/-- Applies the effect of a change on the subscriptions. The answer is `none` if the change turns
out to be over. -/
def apply (c : Coalescer) (d : Disk) (change : Change) : Option Coalescer × List Notice :=
  match change.kind with
  | .created => c.track d change.path
  | .removed =>
    let (registrar, removed) := c.registrar.unregister change.path
    (some { c with registrar }, if removed = 0 then [] else [.unsubscribed change.path removed])
  | .modified | .ignored => (some c, [])

/-- Whether the engine crashed; then the watch is over. -/
def crashed (c : Coalescer) : Bool :=
  c.registrar.engine.crash.isSome

/-- Handles one change. -/
def handleChange (c : Coalescer) (d : Disk) (now : Nat) (change : Change) :
    Coalescer × List Notice :=
  if c.crashed then (c, [])
  else if isCounterArtifact change.path then (c, [.artifactPassed change.path])
  else
    match c.apply d change with
    | (none, notices) => (c, notices)
    | (some applied, notices) =>
      if applied.crashed then (applied, [])
      else if change.kind.qualifies then
        let (marked, more) := applied.mark now change.path
        (marked, notices ++ more)
      else (applied, notices)

/-- Handles changes in order. -/
def handleChanges (c : Coalescer) (d : Disk) (now : Nat) : List Change → Coalescer × List Notice
  | [] => (c, [])
  | change :: rest =>
    let (c, notices) := c.handleChange d now change
    let (c, more) := c.handleChanges d now rest
    (c, notices ++ more)

/-- Handles an event: its changes are told apart first and then handled one after another. -/
def handleEvent (c : Coalescer) (d : Disk) (now : Nat) (event : Event) :
    Coalescer × List Notice :=
  let (changes, skipped) := classify d event
  let (c, notices) := c.handleChanges d now changes
  (c, skipped ++ notices)

/-! ## Flushing -/

/-- How a flush ended. -/
structure Flushed (σ : Type) where
  coalescer : Coalescer
  bumps : BumpedAll σ

/-- Bumps every dirty root; none is dirty afterwards and no flush is due. -/
def flush {σ : Type} [FileSystem σ] (c : Coalescer) (h : Hazards) (d : σ) : Flushed σ :=
  ⟨{ c with dirty := [], deadline := none }, bumpAll h d c.dirty⟩

end Coalescer

end TreeWatch
