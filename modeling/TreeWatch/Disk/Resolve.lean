import TreeWatch.Disk.Basic
import TreeWatch.Fault
import TreeWatch.Path.Basic

/-!
# Following paths

A path is followed name by name from the root directory or from the home of the disk. `.` stays,
`..` goes up, a link continues at its target, and every name but the last has to lead to a
directory. What happens at the very end depends on the access (`Ending`).

`Disk.follow` is recursive in the names of one spelling, and in the number of links that may still
be followed; a path that needs more links than that is given up.
-/

namespace TreeWatch

/-- The names that a path goes through, and whether it starts at the root directory. -/
structure Route where
  absolute : Bool
  names : List Name
  deriving DecidableEq

namespace Route

/-- The name of the directory itself. -/
def here : Name :=
  .text "."

/-- The name of the directory above. -/
def up : Name :=
  .text ".."

/-- The name behind a slash at the end. It stays where it is, so what comes before it has to be a
directory. -/
def slash : Name :=
  .text ""

/-- The route of the pieces between slashes. Empty pieces say nothing, unless they come last. -/
def ofPieces (pieces : List Name) : Route :=
  let inner := pieces.dropLast.filter (· ≠ slash)
  ⟨pieces.head? = some slash && pieces.length ≠ 1, inner ++ [pieces.getLastD slash]⟩

/-- The route that a spelling describes. -/
def ofByteString : ByteString → Route
  | .text s => ofPieces ((Pieces.split '/' s.toList).map fun piece => .text (String.ofList piece))
  | .raw bytes _ => ofPieces ((Pieces.split 0x2F bytes).map .ofBytes)

end Route

/-- What an access wants at the end of a path. -/
inductive Ending where
  /-- The entry itself, be it a link or not. -/
  | entry
  /-- What the links at the end lead to. -/
  | target
  /-- The same, to be created where there is nothing. A slash behind its name refuses it. -/
  | creation
  deriving DecidableEq, Repr

/-- How far one spelling leads. -/
inductive Trail where
  /-- To an entry. -/
  | arrived (place : Place)
  /-- To a directory in which the last name is free. -/
  | vacant (dir : Place) (name : Name)
  /-- To a link met on the way: the route goes on from its directory, through its target and the
  names that were left. -/
  | detour (dir : Place) (target : ByteString) (rest : List Name)
  | failed (fault : Fault)

/-- What a path names. -/
inductive Spot where
  | entry (place : Place)
  | vacant (dir : Place) (name : Name)
  deriving DecidableEq

/-- The place of a spot: that of its entry, or the free one. -/
def Spot.place : Spot → Place
  | .entry place => place
  | .vacant dir name => dir ++ [name]

namespace Disk

/-- The longest name a directory can hold, in bytes. -/
def maxName : Nat :=
  255

/-- The length in bytes at which a path is too long. -/
def maxPath : Nat :=
  4096

/-- How many links a path may go through. -/
def maxLinks : Nat :=
  40

/-- Follows names from a directory, up to a link that has to be followed. -/
def trail (d : Disk) (ending : Ending) : Place → List Name → Trail
  | place, [] => .arrived place
  | place, name :: rest =>
    if name = Route.here ∨ name = Route.slash then d.trail ending place rest
    else if name = Route.up then d.trail ending place.dropLast rest
    else if ending = .creation ∧ rest = [Route.slash] then .failed .isDirectory
    else if maxName < name.size then .failed .nameTooLong
    else
      let next := place ++ [name]
      match d.get? next with
      | none => if rest = [] then .vacant place name else .failed .notFound
      | some .dir => d.trail ending next rest
      | some (.link target) =>
        if rest = [] ∧ ending = .entry then .arrived next else .detour place target rest
      | some _ => if rest = [] then .arrived next else .failed .notDirectory

/-- Follows names from a directory through at most `links` links. -/
def follow (d : Disk) (ending : Ending) : Nat → Place → List Name → Except Fault Spot
  | links, place, names =>
    match d.trail ending place names with
    | .arrived place => .ok (.entry place)
    | .vacant dir name => .ok (.vacant dir name)
    | .failed fault => .error fault
    | .detour dir target rest =>
      let route := Route.ofByteString target
      match links with
      | 0 => .error .linkLoop
      | links + 1 =>
        d.follow ending links (if route.absolute then [] else dir) (route.names ++ rest)

/-- What a path names, or why it names nothing. -/
def locate (d : Disk) (ending : Ending) (path : ByteString) : Except Fault Spot :=
  if 0 ∈ path.bytes then .error .nulInPath
  else if path = .text "" then .error .notFound
  else if maxPath ≤ path.size then .error .nameTooLong
  else
    let route := Route.ofByteString path
    d.follow ending maxLinks (if route.absolute then [] else d.home) route.names

/-- The place of the entry that a path names. -/
def find (d : Disk) (ending : Ending) (path : ByteString) : Except Fault Place := do
  match ← d.locate ending path with
  | .entry place => return place
  | .vacant _ _ => .error .notFound

end Disk

end TreeWatch
