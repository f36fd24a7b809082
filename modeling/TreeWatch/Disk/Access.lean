import TreeWatch.Disk.Resolve

/-!
# Access to the file tree

What a program can do with a path: ask what it names, read, create, write, rename, remove, list.
Each access says what it changed or why it was refused.

Reading, creating and listing follow a link at the end of the path; renaming and removing act on
the link itself. That decides which entry an access touches.
-/

namespace TreeWatch

/-- A path of a text as the system takes it. -/
def Path.native (p : Path) : ByteString :=
  .text p.spelling

namespace Disk

/-! ## Looking -/

/-- The entry that a path leads to, through links. -/
def stat (d : Disk) (path : ByteString) : Except Fault Entry := do
  let place ← d.find .target path
  return (d.get? place).getD .dir

/-- The entry under a path, itself a link or not. -/
def linkStat (d : Disk) (path : ByteString) : Except Fault Entry := do
  let place ← d.find .entry path
  return (d.get? place).getD .dir

/-- Whether a path leads to an entry. -/
def exists? (d : Disk) (path : Path) : Bool :=
  (d.stat path.native).isOk

/-- Whether a path leads to a directory. -/
def isDir (d : Disk) (path : Path) : Bool :=
  match d.stat path.native with
  | .ok .dir => true
  | _ => false

/-- The text of the file a path leads to. -/
def readText (d : Disk) (path : Path) : Except Fault String := do
  match ← d.stat path.native with
  | .file (.text s) => return s
  | .file (.raw _ _) => .error .notText
  | .device => return ""
  | .dir => .error .isDirectory
  | .socket => .error .noDevice
  | .link _ => .error .linkLoop

/-- The names in the directory that a path leads to, with their entries. -/
def list (d : Disk) (path : Path) : Except Fault (List (Name × Entry)) := do
  let place ← d.find .target path.native
  match d.get? place with
  | some .dir => return d.children place
  | _ => .error .notDirectory

/-! ## Changing -/

/-- Opens a file to be written from its start, creating it where there is none. The answer is the
place of the file, which a link may have led to. -/
def create (d : Disk) (path : ByteString) : Except Fault (Disk × Place) := do
  match ← d.locate .creation path with
  | .vacant dir name => return (d.set (dir ++ [name]) (.file default), dir ++ [name])
  | .entry place =>
    match d.get? place with
    | some (.file _) => return (d.set place (.file default), place)
    | some .device => return (d, place)
    | some .socket => .error .noDevice
    | _ => .error .isDirectory

/-- The disk with the contents of an opened file. -/
def write (d : Disk) (place : Place) (contents : ByteString) : Disk :=
  match d.get? place with
  | some (.file _) => d.set place (.file contents)
  | _ => d

/-- Makes sure that an opened file has reached the disk. A device has nothing to make sure of. -/
def sync (d : Disk) (place : Place) : Except Fault Unit :=
  match d.get? place with
  | some .device => .error .invalid
  | _ => .ok ()

/-- Whether an entry may take the stead of another: a directory that of an empty directory only, any
other entry that of anything but a directory. -/
def checkReplace (d : Disk) (source target : Place) : Except Fault Unit :=
  match d.get? source, d.get? target with
  | _, none => .ok ()
  | some .dir, some .dir => if d.children target = [] then .ok () else .error .notEmpty
  | some .dir, some _ => .error .notDirectory
  | _, some .dir => .error .isDirectory
  | _, some _ => .ok ()

/-- Renames an entry, replacing what stands under the new name. -/
def rename (d : Disk) (old new : ByteString) : Except Fault Disk := do
  let source ← d.find .entry old
  let target := match ← d.locate .entry new with
    | .entry place => place
    | .vacant dir name => dir ++ [name]
  if source = target then return d
  if source <+: target then .error .invalid
  if target <+: source then .error .notEmpty
  d.checkReplace source target
  return (d.erase target).moveTree source target

/-- Removes an entry that is not a directory. -/
def remove (d : Disk) (path : ByteString) : Except Fault Disk := do
  let place ← d.find .entry path
  match d.get? place with
  | some .dir | none => .error .isDirectory
  | some _ => return d.erase place

end Disk

end TreeWatch
