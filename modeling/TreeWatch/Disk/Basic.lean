import TreeWatch.ByteString

/-!
# The file tree

A disk is a list of entries, each under its *place*: the names that lead to it from the root
directory. Directories hold no list of their own; what a directory contains are the entries whose
places extend its own by one name. The root directory is always there.

A disk takes a file for what stands at a place: it knows no file with two names, and nothing that
may not be read or looked through. That is added in `Volume`.

Entries are kept in the order of their places, so a directory comes before all that lies below it.
Every operation here changes the entries of some places and leaves all others alone; whether a
change makes sense is decided where paths are followed.
-/

namespace TreeWatch

/-- A name in a directory. -/
abbrev Name : Type :=
  ByteString

/-- Where an entry is: the names from the root directory to it. -/
abbrev Place : Type :=
  List Name

/-- What stands at a place. A device takes what is written and gives nothing back; nobody listens
at a socket. -/
inductive Entry where
  | dir
  | file (contents : ByteString)
  | link (target : ByteString)
  | socket
  | device
  deriving DecidableEq

/-- Whether an entry is a directory. -/
def Entry.isDir : Entry → Bool
  | .dir => true
  | _ => false

/-- Whether an entry is a regular file. -/
def Entry.isFile : Entry → Bool
  | .file _ => true
  | _ => false

/-- The order of places: name by name, a place before those below it. -/
def Place.before (p q : Place) : Bool :=
  decide (p.map ByteString.bytes < q.map ByteString.bytes)

/-- The file tree, and the directory that relative paths start from. -/
structure Disk where
  entries : List (Place × Entry)
  home : Place
  deriving DecidableEq

namespace Disk

/-- What stands at a place. -/
def get? (d : Disk) (p : Place) : Option Entry :=
  if p = [] then some .dir else (d.entries.find? fun e => e.1 = p).map (·.2)

/-- The entries without that at one place. -/
def erase (d : Disk) (p : Place) : Disk :=
  { d with entries := d.entries.filter fun e => e.1 ≠ p }

/-- The entries without those at a place and below it. -/
def eraseTree (d : Disk) (p : Place) : Disk :=
  { d with entries := d.entries.filter fun e => ¬ p <+: e.1 }

/-- Puts an entry in its position among others. -/
def insert (entries : List (Place × Entry)) (e : Place × Entry) : List (Place × Entry) :=
  (entries.takeWhile fun f => Place.before f.1 e.1) ++
    e :: entries.dropWhile fun f => Place.before f.1 e.1

/-- The disk with an entry at a place, in the stead of what was there. -/
def set (d : Disk) (p : Place) (e : Entry) : Disk :=
  { d with entries := insert (d.erase p).entries (p, e) }

/-- The disk with the entries at one place and below it moved to another. -/
def moveTree (d : Disk) (source target : Place) : Disk :=
  let moved := (d.entries.filter fun e => source <+: e.1).map fun e =>
    (target ++ e.1.drop source.length, e.2)
  { d with entries := moved.foldl insert (d.eraseTree source).entries }

/-- The entries of a directory, by name. -/
def children (d : Disk) (p : Place) : List (Name × Entry) :=
  d.entries.filterMap fun e =>
    match e.1.drop p.length with
    | [name] => if p <+: e.1 then some (name, e.2) else none
    | _ => none

/-- The entries below a place, by the names that lead to them from there. -/
def below (d : Disk) (p : Place) : List (Place × Entry) :=
  d.entries.filterMap fun e =>
    if p <+: e.1 ∧ e.1 ≠ p then some (e.1.drop p.length, e.2) else none

end Disk

end TreeWatch
