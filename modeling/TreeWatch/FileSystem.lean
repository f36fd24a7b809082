import TreeWatch.Disk.Access

/-!
# File systems

What configurations are checked against and counters are kept in: anything that can be asked and
changed by paths. The engine runs on a disk; what it does to files is written for any file system,
so that it can be said of others, too.
-/

namespace TreeWatch

/-- What a program can do with files and directories. A file that was created is known by its place
from then on. -/
class FileSystem (σ : Type) where
  stat : σ → ByteString → Except Fault Entry
  list : σ → Path → Except Fault (List (Name × Entry))
  readText : σ → Path → Except Fault String
  create : σ → ByteString → Except Fault (σ × Place)
  write : σ → Place → ByteString → σ
  sync : σ → Place → Except Fault Unit
  rename : σ → ByteString → ByteString → Except Fault σ
  remove : σ → ByteString → Except Fault σ

namespace FileSystem

variable {σ : Type} [FileSystem σ]

/-- Whether a path leads to an entry. -/
def exists? (d : σ) (path : Path) : Bool :=
  (stat d path.native).isOk

/-- Whether a path leads to a directory. -/
def isDir (d : σ) (path : Path) : Bool :=
  match stat d path.native with
  | .ok .dir => true
  | _ => false

end FileSystem

/-! ## Disks -/

instance : FileSystem Disk where
  stat := Disk.stat
  list := Disk.list
  readText := Disk.readText
  create := Disk.create
  write := Disk.write
  sync := Disk.sync
  rename := Disk.rename
  remove := Disk.remove

namespace Disk

variable (d : Disk) (path other : ByteString) (p : Path) (place : Place) (contents : ByteString)

@[simp] theorem fileSystem_stat : FileSystem.stat d path = d.stat path := rfl

@[simp] theorem fileSystem_list : FileSystem.list d p = d.list p := rfl

@[simp] theorem fileSystem_readText : FileSystem.readText d p = d.readText p := rfl

@[simp] theorem fileSystem_create : FileSystem.create d path = d.create path := rfl

@[simp] theorem fileSystem_write : FileSystem.write d place contents = d.write place contents := rfl

@[simp] theorem fileSystem_sync : FileSystem.sync d place = d.sync place := rfl

@[simp] theorem fileSystem_rename : FileSystem.rename d path other = d.rename path other := rfl

@[simp] theorem fileSystem_remove : FileSystem.remove d path = d.remove path := rfl

@[simp] theorem fileSystem_exists? : FileSystem.exists? d p = d.exists? p := rfl

@[simp] theorem fileSystem_isDir : FileSystem.isDir d p = d.isDir p := rfl

end Disk

end TreeWatch
