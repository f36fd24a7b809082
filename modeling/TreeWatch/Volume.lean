import TreeWatch.FileSystem

/-!
# Volumes

A volume is a disk with what a disk leaves out: a file may have several names (hard links), and the
process may be kept from reading an entry, or from looking up names in a directory.

What is written under one name of a file is there under all of them, so a file that is opened to be
written from its start is emptied under all of its names. A rename moves one name, and does nothing
if the new name is one of the same file already.

Whether something may be written is not kept here. A step that is not allowed is one that fails by
itself (`Hazard`).
-/

namespace TreeWatch

/-! ## Looking names up -/

/-- The link at which a trail goes on elsewhere, with the names that were left. -/
def Trail.detour? : Trail → Option (Place × ByteString × List Name)
  | .detour dir target rest => some (dir, target, rest)
  | _ => none

namespace Disk

/-- The directories that names are looked up in, up to a link that has to be followed or a name that
leads no further. The name behind a slash at the end is not looked up. -/
def lookedIn (d : Disk) : Place → List Name → List Place
  | _, [] => []
  | place, name :: rest =>
    if name = Route.slash then d.lookedIn place rest
    else if name = Route.here then place :: d.lookedIn place rest
    else if name = Route.up then place :: d.lookedIn place.dropLast rest
    else if d.get? (place ++ [name]) = some .dir then place :: d.lookedIn (place ++ [name]) rest
    else [place]

/-- The directories that names are looked up in, through at most `links` links. -/
def searched (d : Disk) (ending : Ending) : Nat → Place → List Name → List Place
  | 0, place, names => d.lookedIn place names
  | links + 1, place, names =>
    d.lookedIn place names ++
      match (d.trail ending place names).detour? with
      | none => []
      | some (dir, target, rest) =>
        let route := Route.ofByteString target
        d.searched ending links (if route.absolute then [] else dir) (route.names ++ rest)

/-- The directories that the names of a path are looked up in. A path that the system does not take
is not followed at all. -/
def searchedFor (d : Disk) (ending : Ending) (path : ByteString) : List Place :=
  if 0 ∈ path.bytes ∨ path = .text "" ∨ maxPath ≤ path.size then []
  else
    let route := Route.ofByteString path
    d.searched ending maxLinks (if route.absolute then [] else d.home) route.names

end Disk

/-! ## Volumes -/

/-- What a system keeps about an entry besides what stands there. -/
structure Inode where
  /-- The number of a file that has several names, the same under each of them. -/
  shared : Option Nat := none
  /-- The process may read the file, or list the directory. -/
  readable : Bool := true
  /-- The process may look names up in the directory. -/
  searchable : Bool := true
  deriving DecidableEq

/-- A disk, with what is kept about each of its entries. -/
structure Volume where
  disk : Disk
  inode : Place → Inode := fun _ => {}
  /-- The process may read the files that it creates. -/
  readsOwn : Bool := true

/-- A disk as a volume: every file has one name, and everything may be read and looked through. -/
def Disk.volume (d : Disk) : Volume where
  disk := d

namespace Volume

/-- Whether the process may look up all names on the way of a path. -/
def admits (v : Volume) (ending : Ending) (path : ByteString) : Bool :=
  (v.disk.searchedFor ending path).all fun dir => (v.inode dir).searchable

/-- An access by a path, which comes to nothing if the path may not be followed. -/
def guard (v : Volume) (ending : Ending) (path : ByteString) {α : Type} (access : Except Fault α) :
    Except Fault α :=
  if v.admits ending path then access else .error .denied

/-- The places of the file that stands at a place: one for each of its names. -/
def names (v : Volume) (place : Place) : List Place :=
  match (v.inode place).shared with
  | none => [place]
  | some number =>
    (v.disk.entries.map Prod.fst).filter fun other => (v.inode other).shared = some number

/-- The volume with something else kept about a place. -/
def mark (v : Volume) (place : Place) (inode : Inode) : Volume :=
  { v with inode := fun other => if other = place then inode else v.inode other }

/-- What is kept about the places when one of them, with all below it, has moved to another. -/
def moved (inode : Place → Inode) (source target place : Place) : Inode :=
  if target <+: place then inode (source ++ place.drop target.length)
  else if source <+: place then {} else inode place

/-! ## Access -/

/-- The entry that a path leads to. -/
def stat (v : Volume) (path : ByteString) : Except Fault Entry :=
  v.guard .target path (v.disk.stat path)

/-- The entries of a directory that may be listed. -/
def list (v : Volume) (path : Path) : Except Fault (List (Name × Entry)) :=
  v.guard .target path.native do
    let place ← v.disk.find .target path.native
    let entries ← v.disk.list path
    if (v.inode place).readable then return entries else .error .denied

/-- The text of a file that may be read. -/
def readText (v : Volume) (path : Path) : Except Fault String :=
  v.guard .target path.native do
    let place ← v.disk.find .target path.native
    if (v.inode place).readable then v.disk.readText path else .error .denied

/-- Writes a file under all of its names. -/
def write (v : Volume) (place : Place) (contents : ByteString) : Volume :=
  { v with disk := (v.names place).foldl (fun d other => d.write other contents) v.disk }

/-- Opens a file to be written from its start. One that was there is emptied under all of its
names. -/
def create (v : Volume) (path : ByteString) : Except Fault (Volume × Place) :=
  v.guard .creation path do
    let (d, place) ← v.disk.create path
    match v.disk.get? place with
    | none => return ({ v with disk := d }.mark place { readable := v.readsOwn }, place)
    | some _ => return (v.write place default, place)

/-- Renames an entry. A name of the same file is left as it is. -/
def rename (v : Volume) (old new : ByteString) : Except Fault Volume :=
  v.guard .entry old <| v.guard .entry new do
    let source ← v.disk.find .entry old
    let target := (← v.disk.locate .entry new).place
    if target ∈ v.names source then return v
    let d ← v.disk.rename old new
    return { v with disk := d, inode := moved v.inode source target }

/-- Removes a name. -/
def remove (v : Volume) (path : ByteString) : Except Fault Volume :=
  v.guard .entry path do
    let place ← v.disk.find .entry path
    let d ← v.disk.remove path
    return { v with disk := d }.mark place {}

instance : FileSystem Volume where
  stat := stat
  list := list
  readText := readText
  create := create
  write := write
  sync v place := v.disk.sync place
  rename := rename
  remove := remove

section

variable (v : Volume) (path other : ByteString) (p : Path) (place : Place) (contents : ByteString)

@[simp] theorem fileSystem_stat : FileSystem.stat v path = v.stat path := rfl

@[simp] theorem fileSystem_list : FileSystem.list v p = v.list p := rfl

@[simp] theorem fileSystem_readText : FileSystem.readText v p = v.readText p := rfl

@[simp] theorem fileSystem_create : FileSystem.create v path = v.create path := rfl

@[simp] theorem fileSystem_write : FileSystem.write v place contents = v.write place contents := rfl

@[simp] theorem fileSystem_sync : FileSystem.sync v place = v.disk.sync place := rfl

@[simp] theorem fileSystem_rename : FileSystem.rename v path other = v.rename path other := rfl

@[simp] theorem fileSystem_remove : FileSystem.remove v path = v.remove path := rfl

end

end Volume

end TreeWatch
