import TreeWatch.Config.Validation
import TreeWatch.Proofs.Volumes

/-!
# Disks as volumes

A disk takes a file for what stands at a place, and refuses nothing for a lack of permission. So it
is a volume on which every file has one name, and everything may be read and looked through: it is
checked and bumped like that volume.

Main results:
  * `bump_volume`, `bumpAll_volume`: bumps
  * `validateDirs_volume`: checks of directories
-/

namespace TreeWatch

namespace Disk

variable {d : Disk} {ending : Ending} {path : ByteString}

theorem volume_admits : d.volume.admits ending path = true :=
  List.all_eq_true.mpr fun _ _ => rfl

theorem volume_guard {α : Type} {access : Except Fault α} :
    d.volume.guard ending path access = access := by
  unfold Volume.guard
  rw [volume_admits, if_pos rfl]

@[simp] theorem volume_stat (d : Disk) (path : ByteString) : d.volume.stat path = d.stat path :=
  volume_guard

@[simp] theorem volume_list (d : Disk) (p : Path) : d.volume.list p = d.list p := by
  unfold Volume.list
  rw [volume_guard]
  show (d.find .target p.native >>= fun _ => d.list p >>= fun entries => pure entries) = _
  cases hFind : d.find .target p.native with
  | error fault =>
    unfold Disk.list
    rw [hFind]
    rfl
  | ok place => cases d.list p <;> rfl

@[simp] theorem volume_readText (d : Disk) (p : Path) : d.volume.readText p = d.readText p := by
  unfold Volume.readText
  rw [volume_guard]
  show (d.find .target p.native >>= fun _ => d.readText p) = _
  cases hFind : d.find .target p.native with
  | error fault =>
    unfold Disk.readText Disk.stat
    rw [hFind]
    rfl
  | ok place => rfl

/-- A volume that keeps nothing about its entries is a disk. -/
theorem volume_eq {v : Volume} (hInode : ∀ q, v.inode q = {}) (hReads : v.readsOwn = true) :
    v = v.disk.volume := by
  obtain ⟨disk, inode, readsOwn⟩ := v
  obtain rfl : inode = fun _ => {} := funext hInode
  obtain rfl : readsOwn = true := hReads
  rfl

/-- **A disk as a volume**, beside the disk. -/
def besideVolume (h : Hazard) (temporary path : Path) :
    SideBySide Volume Disk h h temporary path where
  begun x y := x = y.volume
  opened x y _ := x = y.volume
  abandoned x y := x = y.volume
  failed x y := x = y.volume
  replaced x y := x = y.volume
  writes := h.writes_self
  create := by
    rintro x y rfl
    -- a new file is kept as any other
    have hOwn (w : Volume) (place : Place)
        (hCreate : y.volume.create temporary.native = .ok (w, place)) (q : Place) :
        w.inode q = {} := by
      obtain ⟨-, -, hElse, hOld, hNew⟩ := Volume.create_eq_ok hCreate
      by_cases hHere : q = place
      · by_cases hFree : y.volume.disk.get? place = none
        · rw [hHere, hNew hFree]
          rfl
        · rw [hHere, hOld hFree]
          rfl
      · rw [hElse q hHere]
        rfl
    have hAgree := Volume.create_agree fun w place hCreate => by rw [hOwn w place hCreate]
    rw [volume_guard] at hAgree
    refine (hAgree.imp ?_).guard h .create
    rintro ⟨w, place⟩ b ⟨rfl, hCreate, -⟩
    exact ⟨rfl, volume_eq (hOwn w place hCreate) (Volume.create_eq_ok hCreate).2.1⟩
  write := by
    rintro x y place contents rfl
    exact Volume.write_own rfl
  sync := by
    rintro x y place rfl
    rfl
  rename := by
    rintro x y place rfl -
    have hAgree : Agree (fun a b => b = a.disk ∧ y.volume.Renamed temporary.native path.native a)
        (y.volume.rename temporary.native path.native)
        (y.volume.guard .entry temporary.native <| y.volume.guard .entry path.native <|
          y.rename temporary.native path.native) := Volume.rename_agree fun _ _ => rfl
    rw [volume_guard, volume_guard] at hAgree
    refine (hAgree.imp ?_).guard h .rename
    rintro w e ⟨rfl, hRenamed⟩
    -- what moves along with an entry is nothing
    obtain ⟨source, spot, -, -, hInode⟩ := hRenamed.inode
    refine volume_eq (fun q => ?_) hRenamed.readsOwn
    rw [hInode]
    split
    · rfl
    · unfold Volume.moved
      split
      · rfl
      split <;> rfl
  remove := by
    rintro x y rfl
    have hAgree := y.volume.remove_agree temporary.native
    rw [volume_guard] at hAgree
    refine (hAgree.imp ?_).guard h .remove
    rintro w e ⟨rfl, hRemoved⟩
    obtain ⟨place, -, hInode⟩ := hRemoved.inode
    refine volume_eq (fun q => ?_) hRemoved.readsOwn
    rw [hInode]
    split <;> rfl
  uncreated := id
  closed := id
  unremoved := id

end Disk

/-- What was bumped on a disk, on the volume that the disk is. -/
def Bumped.volume (b : Bumped Disk) : Bumped Volume :=
  ⟨b.disk.volume, b.result, b.notices⟩

/-- **A disk is bumped like the volume** on which every file has one name, and everything may be
read and looked through. -/
theorem bump_volume (h : Hazard) (d : Disk) (root : Path) :
    bump h d.volume root = (bump h d root).volume := by
  have hPath : counterPath d.volume root = counterPath d root := by
    unfold counterPath
    simp only [Volume.fileSystem_list, Disk.fileSystem_list, Disk.volume_list]
  have hStart (path : Path) : startingFile d.volume path = startingFile d path := by
    unfold startingFile loadCounter
    simp only [Volume.fileSystem_readText, Disk.fileSystem_readText, Disk.volume_readText]
  have hReplaced (temporary path : Path) (contents : String) :
      replaceFile h d.volume temporary path contents =
        ⟨(replaceFile h d temporary path contents).disk.volume,
          (replaceFile h d temporary path contents).result,
          (replaceFile h d temporary path contents).left⟩ := by
    have hEnded := (Disk.besideVolume h temporary path).replaceFile contents
      (rfl : d.volume = d.volume)
    generalize replaceFile h d.volume temporary path contents = left at hEnded ⊢
    generalize replaceFile h d temporary path contents = right at hEnded ⊢
    cases hEnded with
    | replaced hSame => rw [show _ = Disk.volume _ from hSame]
    | failed fault left hSame => rw [show _ = Disk.volume _ from hSame]
  unfold bump Bumped.volume
  simp only [hPath, hStart, hReplaced]

/-- So are several roots. -/
theorem bumpAll_volume (h : Hazards) (d : Disk) (roots : List Path) :
    (bumpAll h d.volume roots).disk = (bumpAll h d roots).disk.volume ∧
      (bumpAll h d.volume roots).results = (bumpAll h d roots).results ∧
      (bumpAll h d.volume roots).notices = (bumpAll h d roots).notices := by
  induction roots generalizing d with
  | nil => exact ⟨rfl, rfl, rfl⟩
  | cons root rest ih =>
    obtain ⟨hDisk, hResults, hNotices⟩ := ih (bump (h root) d root).disk
    unfold bumpAll
    simp only [bump_volume, Bumped.volume, hDisk, hResults, hNotices, and_self]

/-- A list of directories is checked on a disk as on that volume. -/
theorem validateDirs_volume (d : Disk) (dirs : List Path) :
    validateDirs d.volume dirs = validateDirs d dirs := by
  have hCheck : checkDir d.volume = checkDir d := by
    funext dir
    unfold checkDir FileSystem.exists? FileSystem.isDir
    simp only [Volume.fileSystem_stat, Disk.fileSystem_stat, Disk.volume_stat]
  unfold validateDirs
  rw [hCheck]

end TreeWatch
