import TreeWatch.Disk.Access
import TreeWatch.Notice

/-!
# Changes

An event, as the notification engine reports it, has a kind and any number of paths. What matters
of it is one change per path: something appeared, disappeared, was changed in its contents, or
none of these (`classify`).

A rename may be reported in several ways: with both paths in one event, with one path and the
direction, or without a direction, and then what exists now decides.
-/

namespace TreeWatch

/-- Which end of a rename the paths of an event are. -/
inductive RenameMode where
  | any
  | source
  | target
  | both
  | other
  deriving DecidableEq, Repr

/-- What an event reports. -/
inductive EventKind where
  | any
  | access
  | create
  | remove
  | metadata
  /-- The contents changed, or something about the entry did and it is not said what. -/
  | contents
  | rename (mode : RenameMode)
  | other
  deriving DecidableEq, Repr

/-- An event of the notification engine. -/
structure Event where
  kind : EventKind
  paths : List ByteString
  deriving DecidableEq

/-- What an event means for the tree. -/
inductive ChangeKind where
  | created
  | removed
  | modified
  | ignored
  deriving DecidableEq, Repr

/-- Whether a change counts. -/
def ChangeKind.qualifies : ChangeKind → Bool
  | .ignored => false
  | _ => true

/-- A change of one path. -/
structure Change where
  path : Path
  kind : ChangeKind
  deriving DecidableEq, Repr

/-- What an event of a given kind means for its path number `index`. -/
def EventKind.change (d : Disk) (path : Path) (index : Nat) : EventKind → ChangeKind
  | .create | .rename .target => .created
  | .remove | .rename .source => .removed
  | .rename .both => if index = 0 then .removed else .created
  | .rename .any | .rename .other => if (d.linkStat path.native).isOk then .created else .removed
  | .contents => .modified
  | .metadata | .access | .any | .other => .ignored

/-- The changes of the paths from number `index` on, with a notice for each that is not text. -/
def classifyFrom (d : Disk) (kind : EventKind) (index : Nat) :
    List ByteString → List Change × List Notice
  | [] => ([], [])
  | path :: rest =>
    let (changes, notices) := classifyFrom d kind (index + 1) rest
    match path with
    | .text s => (⟨⟨s⟩, kind.change d ⟨s⟩ index⟩ :: changes, notices)
    | .raw _ _ => (changes, .skippedEvent (.notText path) :: notices)

/-- The changes an event reports, path by path. -/
def classify (d : Disk) (event : Event) : List Change × List Notice :=
  classifyFrom d event.kind 0 event.paths

end TreeWatch
