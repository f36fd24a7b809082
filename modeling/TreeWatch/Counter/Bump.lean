import TreeWatch.Counter.Name
import TreeWatch.FileSystem
import TreeWatch.Notice

/-!
# Bumping a counter

The counter of a root goes up by one: its file is found and read, the version is raised, and the
new contents take the place of the old. What cannot be read counts as 0, so the first number is 1;
after the largest number comes 1 again.

The contents are never written in place. They go to a sibling that is completed first and then
renamed over the counter file (`replaceFile`), so the file is at every moment the old or the new
one. Each of the primitive steps may fail for reasons of its own, which a `Hazard` describes; then
the sibling is removed again. What may go wrong need not be the same for all roots (`Hazards`).
-/

namespace TreeWatch

variable {σ : Type} [FileSystem σ]

/-! ## Finding and reading -/

/-- The counter file of a root: the regular file there whose name is that of a counter, in any
case, or the place for a new one. -/
def counterPath (d : σ) (root : Path) : Path :=
  let named (e : Name × Entry) : Option Path :=
    match e with
    | (.text name, .file _) => if isCounterName name then some (root.join ⟨name⟩) else none
    | _ => none
  match FileSystem.list d root with
  | .ok entries => (entries.findSome? named).getD (root.join ⟨counterFileName⟩)
  | .error _ => root.join ⟨counterFileName⟩

/-- Reads the counter file under a path. -/
def loadCounter (d : σ) (path : Path) : Except WatchError CounterFile := do
  let text ← (FileSystem.readText d path).mapError (.access path)
  (CounterFile.parse text).mapError fun fault => .counter path fault.message

/-! ## Replacing -/

/-- The primitive steps of replacing a file. -/
inductive Primitive where
  | create
  | write
  | sync
  | rename
  | remove
  deriving DecidableEq, Repr

/-- What may go wrong besides what the file system itself refuses: the fault of each step that
fails, and how many bytes a failing write still gets onto the disk. -/
structure Hazard where
  fails : Primitive → Option Fault
  written : Nat

/-- Nothing goes wrong by itself. -/
def Hazard.none : Hazard :=
  ⟨fun _ => .none, 0⟩

/-- A step that may fail by itself before it does anything. -/
def Hazard.guard (h : Hazard) (step : Primitive) {α : Type} (action : Except Fault α) :
    Except Fault α :=
  match h.fails step with
  | some fault => .error fault
  | .none => action

/-- How replacing a file ended. `left` is the fault for which the sibling could not be removed. -/
structure Replaced (σ : Type) where
  disk : σ
  result : Except Fault Unit
  left : Option Fault := none

/-- Gives up: the sibling is removed, if it is there. -/
def abandonReplace (h : Hazard) (d : σ) (temporary : Path) (fault : Fault) : Replaced σ :=
  match h.guard .remove (FileSystem.remove d temporary.native) with
  | .ok d => ⟨d, .error fault, none⟩
  | .error left => ⟨d, .error fault, if left = .notFound then none else some left⟩

/-- Replaces the file under a path by way of a sibling: create it, write it, make sure of it, rename
it. -/
def replaceFile (h : Hazard) (d : σ) (temporary path : Path) (contents : String) : Replaced σ :=
  match h.guard .create (FileSystem.create d temporary.native) with
  | .error fault => abandonReplace h d temporary fault
  | .ok (d, place) =>
    match h.fails .write with
    | some fault =>
      let part := ByteString.take h.written (.text contents)
      abandonReplace h (FileSystem.write d place part) temporary fault
    | .none =>
      let d := FileSystem.write d place (.text contents)
      match h.guard .sync (FileSystem.sync d place) with
      | .error fault => abandonReplace h d temporary fault
      | .ok () =>
        match h.guard .rename (FileSystem.rename d temporary.native path.native) with
        | .error fault => abandonReplace h d temporary fault
        | .ok d => ⟨d, .ok (), none⟩

/-! ## Bumping -/

/-- How a bump ended. -/
structure Bumped (σ : Type) where
  disk : σ
  result : Except WatchError UInt64
  notices : List Notice

/-- The number after a version. -/
def nextVersion (n : UInt64) : UInt64 :=
  if n.toNat + 1 < UInt64.size then n + 1 else 1

/-- The file to start from, with what there is to say about it. -/
def startingFile (d : σ) (path : Path) : CounterFile × List Notice :=
  match loadCounter d path with
  | .ok file => (file, [])
  | .error e => ({}, [.counterUnusable path e])

/-- The number a file stands at, with what there is to say about it. -/
def startingVersion (path : Path) (file : CounterFile) : UInt64 × List Notice :=
  match file.version with
  | .ok n => (n, [])
  | .error fault => (0, [.versionReset path fault.message])

/-- Raises the counter of a root by one. -/
def bump (h : Hazard) (d : σ) (root : Path) : Bumped σ :=
  let path := counterPath d root
  let (file, unusable) := startingFile d path
  let (current, reset) := startingVersion path file
  let next := nextVersion current
  let overflow := if current.toNat + 1 < UInt64.size then [] else [.versionOverflow path]
  let temporary := temporaryPath path
  let replaced := replaceFile h d temporary path (file.setVersion next).render
  let left := replaced.left.toList.map (.temporaryLeft temporary)
  { disk := replaced.disk
    result := (replaced.result.mapError (.access path)).map fun () => next
    notices := .bumping path :: unusable ++ reset ++ overflow ++ left }

/-- What may go wrong when roots are bumped: for each root something of its own. -/
abbrev Hazards : Type :=
  Path → Hazard

/-- Nothing goes wrong with any root. -/
def Hazards.none : Hazards :=
  fun _ => .none

/-- How bumping several roots ended: how each bump went, in order. -/
structure BumpedAll (σ : Type) where
  disk : σ
  results : List (Path × Except WatchError UInt64)
  notices : List Notice

/-- What there is to say about how a bump went. -/
def bumpNotice (root : Path) : Except WatchError UInt64 → Notice
  | .ok version => .bumped root version
  | .error e => .bumpFailed root e

/-- Bumps roots one after another; one that fails does not keep the others from being bumped. -/
def bumpAll (h : Hazards) (d : σ) : List Path → BumpedAll σ
  | [] => ⟨d, [], []⟩
  | root :: rest =>
    let first := bump (h root) d root
    let others := bumpAll h first.disk rest
    { disk := others.disk
      results := (root, first.result) :: others.results
      notices := first.notices ++ bumpNotice root first.result :: others.notices }

/-- The first root is bumped first, and the others on what that leaves. -/
theorem bumpAll_cons (h : Hazards) (d : σ) (root : Path) (rest : List Path) :
    (bumpAll h d (root :: rest)).disk = (bumpAll h (bump (h root) d root).disk rest).disk ∧
      (bumpAll h d (root :: rest)).results = (root, (bump (h root) d root).result) ::
        (bumpAll h (bump (h root) d root).disk rest).results := by
  rw [bumpAll]
  exact ⟨rfl, rfl⟩

/-- How many tasks the bumps took: one for all of them together. -/
def BumpedAll.tasks (b : BumpedAll σ) : Nat :=
  if b.results = [] then 0 else 1

/-- How many roots were bumped. -/
def BumpedAll.count (b : BumpedAll σ) : Nat :=
  b.results.countP fun r => r.2.isOk

end TreeWatch
