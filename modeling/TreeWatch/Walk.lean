import TreeWatch.Disk.Access
import TreeWatch.Error

/-!
# Walks

A walk lists what lies in a tree: the root under the path it was given, and every entry below it,
each under the path of its directory and its name. Links below the root are listed and not
followed; if the root itself is a link, the walk goes on where it leads. It ends early at a
directory whose path is too long to be opened.

`-` means standard input to a walk, however the path is spelled; there is nothing to list.
-/

namespace TreeWatch

/-- An entry met on a walk, with its path. -/
structure Visit where
  path : ByteString
  entry : Entry
  deriving DecidableEq

/-- A name below a path: joined with a slash, unless the path ends in one. -/
def ByteString.child (path name : ByteString) : ByteString :=
  match path, name with
  | .text p, .text n => .text ((⟨p⟩ : Path).join ⟨n⟩).spelling
  | path, name =>
    let sep : List UInt8 := if path.bytes.getLast? = some 0x2F then [] else [0x2F]
    .ofBytes (path.bytes ++ sep ++ name.bytes)

/-- What a walk makes of a root that is there: the entry it lists for it, and whether there is a
tree to go into. The target of a link is asked for, and a regular file at its end is listed in its
stead. -/
def rootVisit (d : Disk) (root : Path) : Entry → Except Fault (Visit × Bool)
  | .link target => do
    match ← d.stat root.native with
    | .dir => return (⟨root.native, .link target⟩, true)
    | e => return (⟨root.native, e⟩, false)
  | e => .ok (⟨root.native, e⟩, e.isDir)

/-- The entries of a tree, its root first. -/
def treeVisits (d : Disk) (root : Path) : Except Fault (List Visit) := do
  let (first, deeper) ← rootVisit d root (← d.linkStat root.native)
  if deeper then
    let place ← d.find .target root.native
    let inner := (d.below place).map fun (names, entry) =>
      ⟨names.foldl ByteString.child root.native, entry⟩
    return first :: inner
  else return [first]

/-- How a walk went: what it met, and what ended it early. -/
structure Walked where
  visits : List Visit
  fault? : Option WalkFault := none

/-- The walk up to the first directory that cannot be opened, that one included. -/
def walkThrough : List Visit → Walked
  | [] => { visits := [] }
  | visit :: rest =>
    if visit.entry.isDir ∧ Disk.maxPath ≤ visit.path.size then
      { visits := [visit], fault? := some (.access visit.path .nameTooLong) }
    else
      let others := walkThrough rest
      { others with visits := visit :: others.visits }

/-- A walk through a tree. -/
def walk (d : Disk) (root : Path) : Walked :=
  if root.SameAs ⟨"-"⟩ then { visits := [] }
  else
    match treeVisits d root with
    | .error fault => { visits := [], fault? := some (.access root.native fault) }
    | .ok visits => walkThrough visits

/-- Whether an entry is one to watch: a directory or a regular file. -/
def Entry.isWatched (e : Entry) : Bool :=
  e.isDir || e.isFile

end TreeWatch
