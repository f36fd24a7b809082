import TreeWatch.Disk.Access

/-!
# Edits of the file tree

Changes that users make to a tree: whole directories come and go, files are written with the
directories that lead to them. An edit that is refused leaves the tree as it is.
-/

namespace TreeWatch

/-- A change of the tree, by the paths it names. -/
inductive Edit where
  /-- A directory, with those that lead to it. -/
  | dir (path : ByteString)
  /-- A file with the given contents, and the directories that lead to it. -/
  | file (path : ByteString) (contents : ByteString)
  /-- A link, and the directories that lead to it. -/
  | link (path : ByteString) (target : ByteString)
  | socket (path : ByteString)
  /-- An entry is removed, a directory with all that lies below it. -/
  | remove (path : ByteString)
  | rename (old new : ByteString)
  deriving DecidableEq

namespace Disk

/-- Makes the directories that the names lead to from a directory. -/
def makeDirs (d : Disk) (dir : Place) : List Name → Except Fault Disk
  | [] => .ok d
  | name :: rest => do
    match ← d.follow .target maxLinks dir [name] with
    | .entry place =>
      match d.get? place with
      | some .dir => d.makeDirs place rest
      | _ => .error .notDirectory
    | .vacant parent name => (d.set (parent ++ [name]) .dir).makeDirs (parent ++ [name]) rest

/-- Where a route starts. -/
def origin (d : Disk) (route : Route) : Place :=
  if route.absolute then [] else d.home

/-- The disk with the directories that lead to the last name of a path. -/
def makeParents (d : Disk) (path : ByteString) : Except Fault Disk :=
  let route := Route.ofByteString path
  d.makeDirs (d.origin route) route.names.dropLast

/-- Puts a new entry under a free name. -/
def place (d : Disk) (path : ByteString) (e : Entry) : Except Fault Disk := do
  match ← d.locate .entry path with
  | .vacant dir name => return d.set (dir ++ [name]) e
  | .entry _ => .error .alreadyExists

/-- The disk after an edit. -/
def edit? (d : Disk) : Edit → Except Fault Disk
  | .dir path =>
    let route := Route.ofByteString path
    d.makeDirs (d.origin route) route.names
  | .file path contents => do
    let (d, place) ← (← d.makeParents path).create path
    return d.write place contents
  | .link path target => do (← d.makeParents path).place path (.link target)
  | .socket path => do (← d.makeParents path).place path .socket
  | .remove path => do return d.eraseTree (← d.find .entry path)
  | .rename old new => d.rename old new

/-- The disk after an edit, or unchanged if the edit is refused. -/
def edit (d : Disk) (e : Edit) : Disk :=
  (d.edit? e).toOption.getD d

end Disk

end TreeWatch
