import TreeWatch.Config.Override
import TreeWatch.Controller.Operations
import TreeWatch.Proofs.Dedup
import TreeWatch.Proofs.Searches

/-!
# Checking lists of directories

A list of directories is checked in the spellings it was given, and repeats are dropped either
before or after. Spellings of one path need not name the same thing: a regular file is there
without a slash at the end and not there with one. But whether a path leads to a directory is the
same for all of its spellings, so what is dropped was good if the spelling that stays is, and the
first entry at fault is never a repeat.

On a volume it takes that names may be looked up in the directories of the list: where they may not,
a directory is there, but not if `.` is added to its path.

Main results:
  * `Path.dedup_eq_firstSpellings`: what is left of a list without repeats
  * `Disk.isDir_of_sameAs`, `Volume.isDir_of_sameAs`: spellings of a path lead to a directory
    together
  * `repeats_pass_or_fail_alike`: a list and what is left of it pass or fail with the same error
  * `repeat_of_closed_directory_fails`: where they do not
-/

namespace TreeWatch

/-! ## First spellings -/

namespace Path

/-- The paths of a list that agree with none before them. -/
def firstSpellings (paths : List Path) : List Path :=
  (paths.zipIdx.filter fun (p, i) => (paths.take i).all fun q => !decide (q.SameAs p)).map Prod.fst

theorem firstSpellings_sublist (paths : List Path) : (firstSpellings paths).Sublist paths := by
  have h := (List.filter_sublist (p := fun (p, i) =>
    (paths.take i).all fun q => !decide (q.SameAs p)) (l := paths.zipIdx)).map Prod.fst
  rwa [List.zipIdx_map_fst] at h

theorem firstSpellings_concat (init : List Path) (last : Path) :
    firstSpellings (init ++ [last]) = firstSpellings init ++
      if init.any fun q => decide (q.SameAs last) then [] else [last] := by
  have hInit : (init.zipIdx.filter fun (p, i) =>
        ((init ++ [last]).take i).all fun q => !decide (q.SameAs p)) =
      init.zipIdx.filter fun (p, i) => (init.take i).all fun q => !decide (q.SameAs p) := by
    refine List.filter_congr fun (p, i) hMem => ?_
    have hBound : i ≤ init.length := Nat.le_of_lt (List.mem_zipIdx' hMem).1
    simp only [List.take_append_of_le_length hBound]
  unfold firstSpellings
  rw [List.zipIdx_append, List.filter_append, List.map_append, hInit, Nat.zero_add,
    List.zipIdx_singleton]
  congr 1
  by_cases hKnown : (init.any fun q => decide (q.SameAs last)) = true
  · rw [if_pos hKnown, List.filter_cons_of_neg]
    · rfl
    · simpa using hKnown
  · rw [if_neg hKnown, List.filter_cons_of_pos]
    · rfl
    · simpa using hKnown

theorem any_dedup (paths : List Path) (p : Path) :
    ((dedup paths).any fun q => decide (q.SameAs p)) = paths.any fun q => decide (q.SameAs p) := by
  rw [Bool.eq_iff_iff, List.any_eq_true, List.any_eq_true]
  constructor
  · rintro ⟨q, hMem, hSame⟩
    exact ⟨q, mem_of_mem_dedup hMem, hSame⟩
  · rintro ⟨q, hMem, hSame⟩
    obtain ⟨r, hLeft, hAgain⟩ := exists_mem_dedup hMem
    exact ⟨r, hLeft, decide_eq_true (hAgain.trans (of_decide_eq_true hSame))⟩

/-- **What is left** without repeats is every path that agrees with none before it. -/
theorem dedup_eq_firstSpellings (paths : List Path) : dedup paths = firstSpellings paths := by
  induction paths using List.reverseRecOn with
  | nil => rfl
  | append_singleton init last ih =>
    rw [dedup_concat, firstSpellings_concat, addNew, any_dedup, ih]
    split
    · rw [List.append_nil]
    · rfl

theorem dedup_dedup (paths : List Path) : dedup (dedup paths) = dedup paths :=
  dedup_eq_self (dedup_pairwise paths)

end Path

/-! ## Spellings that lead to directories -/

theorem Pieces.mem_split {α : Type} [DecidableEq α] {separator c : α} (hOther : c ≠ separator)
    (s : List α) : c ∈ s ↔ ∃ piece ∈ split separator s, c ∈ piece := by
  induction s with
  | nil => simp [split]
  | cons d rest ih =>
    rw [split]
    by_cases hHere : d = separator
    · simp [hHere, hOther, ih]
    · rw [if_neg hHere]
      cases hRest : split separator rest with
      | nil => exact absurd hRest (split_ne_nil separator rest)
      | cons piece pieces => simp [ih, hRest, or_assoc]

namespace Path

variable {p q : Path} {name : String}

/-- The names among the components are those of the pieces. -/
theorem name_mem_components : .name name ∈ p.components ↔
    ∃ piece ∈ Pieces.split '/' p.spelling.toList, component? piece = some (.name name) := by
  unfold components
  by_cases hSome : p.spelling.toList = []
  · rw [hSome]
    simp [componentsOf, Pieces.split, component?]
  · obtain ⟨first, rest, hSplit, hAlone, -⟩ := exists_split hSome
    have hLeading : .name name ∈ leading first ↔ component? first = some (.name name) := by
      unfold leading
      split
      · next hNil => simp [hNil, component?]
      · split
        · next hHere => simp [hHere, component?]
        · simp
    rw [componentsOf_cons hSplit hAlone, hSplit, List.mem_append, hLeading, List.mem_filterMap,
      List.exists_mem_cons_iff]

/-- A piece with a character other than a dot is a name. -/
theorem component?_of_mem {piece : List Char} {c : Char} (hMem : c ∈ piece) (hDot : c ≠ '.') :
    component? piece = some (.name (String.ofList piece)) := by
  unfold component?
  rw [if_neg, if_neg]
  · rintro rfl
    simp [hDot] at hMem
  · rintro (rfl | rfl)
    · cases hMem
    · simp [hDot] at hMem

/-- A NUL in a path is in one of its names. -/
theorem noNul_iff : 0 ∉ p.native.bytes ↔
    ∀ name, .name name ∈ p.components → 0 ∉ Utf8.encode name.toList := by
  -- neither a slash nor a dot is encoded with it
  have hSlash {c : Char} (hNul : 0 ∈ String.utf8EncodeChar c) : c ≠ '/' := by
    rintro rfl
    revert hNul
    decide
  have hDot {c : Char} (hNul : 0 ∈ String.utf8EncodeChar c) : c ≠ '.' := by
    rintro rfl
    revert hNul
    decide
  have hBytes : 0 ∈ p.native.bytes ↔ ∃ c ∈ p.spelling.toList, 0 ∈ String.utf8EncodeChar c :=
    List.mem_flatMap
  constructor
  · intro hNone name hName hNul
    obtain ⟨piece, hPiece, hComponent⟩ := name_mem_components.mp hName
    obtain ⟨c, hMem, hChar⟩ := List.mem_flatMap.mp hNul
    rw [← Disk.pieceName_eq_iff.mp (Disk.component?_eq_name hComponent).1] at hMem
    exact hNone (hBytes.mpr ⟨c, (Pieces.mem_split (hSlash hChar) _).mpr ⟨piece, hPiece, hMem⟩,
      hChar⟩)
  · intro hNames hNul
    obtain ⟨c, hMem, hChar⟩ := hBytes.mp hNul
    obtain ⟨piece, hPiece, hHere⟩ := (Pieces.mem_split (hSlash hChar) _).mp hMem
    have hName := component?_of_mem hHere (hDot hChar)
    refine hNames _ (name_mem_components.mpr ⟨piece, hPiece, hName⟩)
      (List.mem_flatMap.mpr ⟨c, ?_, hChar⟩)
    rwa [String.toList_ofList]

theorem components_eq_nil : p.components = [] ↔ p.spelling = "" := by
  constructor
  · intro hNone
    by_contra hSome
    obtain ⟨first, rest, hSplit, hAlone, -⟩ := exists_split (s := p.spelling.toList)
      (by rwa [ne_eq, String.toList_eq_nil_iff])
    obtain ⟨c, hLeading, -⟩ := leading_eq first
    rw [components, componentsOf_cons hSplit hAlone, hLeading] at hNone
    cases hNone
  · intro hEmpty
    rw [components, hEmpty]
    rfl

end Path

namespace Disk

variable {d : Disk} {p q : Path}

/-- Looking at a path shows a directory if the path leads to one. -/
theorem isDir_iff : d.isDir p = true ↔
    p.Usable ∧ p.spelling ≠ "" ∧ ∃ dir, d.Enters p dir ∧ d.DirAt dir := by
  have hStat : d.isDir p = true ↔ ∃ dir, d.find .target p.native = .ok dir ∧ d.DirAt dir := by
    unfold isDir stat DirAt
    cases d.find .target p.native with
    | error fault => simp [bind, Except.bind]
    | ok place =>
      simp only [bind, Except.bind, pure, Except.pure, Except.ok.injEq, exists_eq_left']
      cases (d.get? place).getD .dir <;> simp
  have hEnters {dir : Place} (hUsable : p.Usable) (hSpelling : p.spelling ≠ "")
      (hDir : d.DirAt dir) : d.Enters p dir ↔ d.find .target p.native = .ok dir := by
    rw [find_eq_ok, locate_eq hUsable hSpelling, Enters, ← p.route_native.2, enter_loud]
    exact enter_iff hDir
  rw [hStat]
  constructor
  · rintro ⟨dir, hFind, hDir⟩
    have hLocate := find_eq_ok.mp hFind
    have hUsable := usable_of_locate hLocate
    have hSpelling := nonempty_of_locate hLocate
    exact ⟨hUsable, hSpelling, dir, (hEnters hUsable hSpelling hDir).mpr hFind, hDir⟩
  · rintro ⟨hUsable, hSpelling, dir, hEnter, hDir⟩
    exact ⟨dir, (hEnters hUsable hSpelling hDir).mp hEnter, hDir⟩

/-- **Spellings of a path** that are not too long lead to a directory together. -/
theorem isDir_of_sameAs (hSame : p.SameAs q) (hShort : q.native.size < maxPath)
    (hDir : d.isDir p = true) : d.isDir q = true := by
  rw [isDir_iff] at hDir ⊢
  obtain ⟨hUsable, hSpelling, dir, hEnters, hHere⟩ := hDir
  refine ⟨⟨?_, hShort⟩, ?_, dir, hEnters.of_sameAs hSame, hHere⟩
  · have hNames := Path.noNul_iff.mp hUsable.noNul
    rw [hSame] at hNames
    exact Path.noNul_iff.mpr hNames
  · rw [ne_eq, ← Path.components_eq_nil] at hSpelling ⊢
    rwa [hSame] at hSpelling

end Disk

namespace Volume

variable {v : Volume} {p q : Path} {dir : Place}

theorem isDir_iff : FileSystem.isDir v p = true ↔
    v.admits .target p.native = true ∧ v.disk.isDir p = true := by
  unfold FileSystem.isDir
  rw [fileSystem_stat, stat, guard]
  cases v.admits .target p.native with
  | false => simp
  | true =>
    simp only [if_true, true_and]
    exact Iff.rfl

/-- Whether a path to a directory may be followed is up to its steps, if names may be looked up in
that directory. -/
theorem admits_iff (hUsable : p.Usable) (hSpelling : p.spelling ≠ "")
    (hEnters : v.disk.Enters p dir) (hDir : (v.inode dir).searchable = true) :
    v.admits .target p.native = true ↔
      ∀ q ∈ v.disk.searched .target Disk.maxLinks (v.disk.start p) p.steps,
        (v.inode q).searchable = true := by
  have hNative : p.native ≠ .text "" := fun hEq => hSpelling (ByteString.text.inj hEq)
  have hTaken : ¬ (0 ∈ p.native.bytes ∨ p.native = .text "" ∨ Disk.maxPath ≤ p.native.size) := by
    simp only [not_or]
    exact ⟨hUsable.noNul, hNative, Nat.not_le.mpr hUsable.short⟩
  obtain ⟨hStart, hSteps⟩ := p.route_native
  unfold Disk.Enters at hEnters
  rw [← hSteps, Disk.enter_loud] at hEnters
  unfold admits Disk.searchedFor
  rw [if_neg hTaken, List.all_eq_true, ← hSteps, ← Disk.searched_loud hEnters hDir, Disk.start,
    ← hStart]

/-- **Spellings of a path** lead to a directory together if names may be looked up in it. -/
theorem isDir_of_sameAs (hSame : p.SameAs q) (hShort : q.native.size < Disk.maxPath)
    (hSearchable : ∀ dir, v.disk.Enters p dir → (v.inode dir).searchable = true)
    (hDir : FileSystem.isDir v p = true) : FileSystem.isDir v q = true := by
  obtain ⟨hAdmits, hHere⟩ := isDir_iff.mp hDir
  have hThere := Disk.isDir_of_sameAs hSame hShort hHere
  obtain ⟨hUsable, hSpelling, dir, hEnters, -⟩ := Disk.isDir_iff.mp hHere
  obtain ⟨hUsable', hSpelling', -⟩ := Disk.isDir_iff.mp hThere
  have hInside := hSearchable dir hEnters
  rw [admits_iff hUsable hSpelling hEnters hInside] at hAdmits
  refine isDir_iff.mpr ⟨?_, hThere⟩
  rw [admits_iff hUsable' hSpelling' (hEnters.of_sameAs hSame) hInside, Disk.start,
    ← hSame.isAbsolute, ← hSame.steps]
  exact hAdmits

end Volume

/-! ## Lists that are checked -/

section Checks

variable {σ : Type} [FileSystem σ] {d : σ} {dir : Path}

theorem checkDir_eq_ok : checkDir d dir = .ok () ↔ FileSystem.isDir d dir = true := by
  have hThere : FileSystem.isDir d dir = true → FileSystem.exists? d dir = true := by
    unfold FileSystem.isDir FileSystem.exists?
    cases FileSystem.stat d dir.native with
    | error fault => simp
    | ok e => simp [Except.isOk, Except.toBool]
  unfold checkDir
  cases hDir : FileSystem.isDir d dir with
  | false => cases FileSystem.exists? d dir <;> simp
  | true => simp [hThere hDir]

end Checks

section Lists

variable {ε : Type} {check : Path → Except ε Unit} {paths : List Path}

theorem forM_eq_ok : paths.forM check = .ok () ↔ ∀ p ∈ paths, check p = .ok () := by
  induction paths with
  | nil => simp [List.forM_nil, pure, Except.pure]
  | cons p rest ih =>
    have hCons : (p :: rest).forM check = (check p >>= fun _ => rest.forM check) := rfl
    rw [hCons, List.forall_mem_cons, ← ih]
    cases hFirst : check p with
    | error fault => simp [bind, Except.bind]
    | ok u => simp [bind, Except.bind]

/-- Entries that pass can be left out. -/
theorem forM_filter (keep : Path → Bool)
    (h : ∀ p ∈ paths, keep p = false → check p = .ok ()) :
    (paths.filter keep).forM check = paths.forM check := by
  induction paths with
  | nil => rfl
  | cons p rest ih =>
    have hRest := ih fun q hq => h q (List.mem_cons_of_mem _ hq)
    cases hKeep : keep p with
    | true =>
      rw [List.filter_cons_of_pos hKeep]
      exact congrArg (check p >>= fun _ => ·) hRest
    | false =>
      rw [List.filter_cons_of_neg (by simp [hKeep]), hRest]
      show _ = check p >>= fun _ => rest.forM check
      rw [h p List.mem_cons_self hKeep]
      rfl

/-- **Repeats can be left out** of a list if what agrees with an entry that passes does, too: the
first entry at fault is none of them. -/
theorem forM_dedup
    (h : ∀ p ∈ paths, ∀ q ∈ paths, p.SameAs q → check p = .ok () → check q = .ok ()) :
    (Path.dedup paths).forM check = paths.forM check := by
  -- the first path stays, and what is left of the others comes from a shorter list
  induction hLength : paths.length using Nat.strongRecOn generalizing paths with
  | ind n ih =>
    cases paths with
    | nil => rfl
    | cons p rest =>
      have hKept : (rest.filter fun q => !decide (p.SameAs q)) ⊆ p :: rest :=
        fun q hq => List.mem_cons_of_mem _ (List.mem_of_mem_filter hq)
      have hLeft : (Path.dedup (rest.filter fun q => !decide (p.SameAs q))).forM check =
          (rest.filter fun q => !decide (p.SameAs q)).forM check := by
        refine ih _ ?_ (fun q hq r hr => h q (hKept hq) r (hKept hr)) rfl
        rw [← hLength]
        exact Nat.lt_succ_of_le (List.length_filter_le _ rest)
      rw [Path.dedup_cons]
      show (check p >>= fun _ => _) = (check p >>= fun _ => rest.forM check)
      cases hFirst : check p with
      | error fault => rfl
      | ok u =>
        -- the repeats of a path that passes pass
        refine hLeft.trans (forM_filter _ fun q hq hRepeat => ?_)
        exact h p List.mem_cons_self q (List.mem_cons_of_mem _ hq) (by simpa using hRepeat) hFirst

end Lists

section Checks

variable {σ : Type} [FileSystem σ] {d : σ} {dirs : List Path}

theorem validateDirs_eq_ok :
    validateDirs d dirs = .ok () ↔ dirs ≠ [] ∧ ∀ dir ∈ dirs, FileSystem.isDir d dir = true := by
  unfold validateDirs
  by_cases hNone : dirs = []
  · simp [hNone]
  · simp only [hNone, if_false, forM_eq_ok, checkDir_eq_ok, ne_eq, not_false_eq_true, true_and]

/-- **A list and what is left of it** pass or fail with the same error, where spellings of a path
lead to a directory together. -/
theorem validateDirs_dedup (hAlike : ∀ p ∈ dirs, ∀ q ∈ dirs, p.SameAs q →
      FileSystem.isDir d p = true → FileSystem.isDir d q = true) :
    validateDirs d (Path.dedup dirs) = validateDirs d dirs := by
  simp only [← checkDir_eq_ok] at hAlike
  unfold validateDirs
  simp only [Path.dedup_eq_nil, forM_dedup hAlike]

end Checks

/-! ## The two orders -/

namespace Config

/-- The directories that count: those given beside a configuration, if there are any. -/
def listed (c : Config) (o : Overrides) : List Path :=
  if o.dirs = [] then c.watch.dirs else o.dirs

/-- The grace period that counts. -/
def grace (c : Config) (o : Overrides) : UInt64 :=
  o.gracePeriodMs.getD c.watch.gracePeriodMs

theorem override_eq (c : Config) (o : Overrides) :
    c.override o = ⟨⟨Path.dedup (c.listed o), c.grace o⟩, c.verbose⟩ :=
  rfl

theorem validate_override {σ : Type} [FileSystem σ] {d : σ} {c : Config} {o : Overrides}
    (hGrace : c.grace o ≠ 0) :
    (c.override o).validate d = validateDirs d (Path.dedup (c.listed o)) := by
  show (validateDirs d (Path.dedup (c.listed o)) >>= fun _ =>
    if c.grace o = 0 then Except.error _ else Except.ok ()) = _
  rw [if_neg hGrace]
  cases validateDirs d (Path.dedup (c.listed o)) <;> rfl

end Config

/-- An update gets in line if its directories are good, and is answered with what is wrong with
them otherwise. -/
theorem Service.beginUpdate_checked (s : Service) (dirs : List Path) :
    (validateDirs s.disk dirs = .ok () → s.beginUpdate dirs = s.enqueue (.update dirs)) ∧
      ∀ why, validateDirs s.disk dirs = .error why →
        (s.beginUpdate dirs).1.answerTo? (s.beginUpdate dirs).2 = some (.error (.config why)) := by
  constructor
  · intro hGood
    rw [beginUpdate, hGood]
  · intro why hWhy
    rw [beginUpdate, hWhy]
    exact List.lookup_cons_self

/-- **Dropping repeats and checking may be exchanged.** What is left of a list are the paths that
agree with none before them, in order, and nothing is left to drop. On every volume, paths that are
too long aside, and as long as names may be looked up in the directories of the list, what is left
passes if the list does, and otherwise both fail with the same error about the same path as spelled.
So does a configuration that lists these directories, whose repeats are dropped before the check, if
its grace period is not zero: the list is good for an update, which checks it as it is, if and only
if it is good for the configuration, and the errors are the same. -/
theorem repeats_pass_or_fail_alike (dirs : List Path) :
    (Path.dedup dirs = Path.firstSpellings dirs ∧ (Path.firstSpellings dirs).Sublist dirs) ∧
      Path.dedup (Path.dedup dirs) = Path.dedup dirs ∧
      ((∀ dir ∈ dirs, dir.native.size < Disk.maxPath) →
        (∀ v : Volume, (∀ dir ∈ dirs, ∀ place, v.disk.Enters dir place →
            (v.inode place).searchable = true) →
          validateDirs v (Path.dedup dirs) = validateDirs v dirs ∧
            ∀ (c : Config) (o : Overrides), c.listed o = dirs → c.grace o ≠ 0 →
              (c.override o).validate v = validateDirs v dirs) ∧
        ∀ (s : Service) (c : Config) (o : Overrides), c.listed o = dirs → c.grace o ≠ 0 →
          ((c.override o).validate s.disk = .ok () →
            s.beginUpdate dirs = s.enqueue (.update dirs)) ∧
          ∀ why, (c.override o).validate s.disk = .error why →
            (s.beginUpdate dirs).1.answerTo? (s.beginUpdate dirs).2 =
              some (.error (.config why))) := by
  refine ⟨⟨Path.dedup_eq_firstSpellings dirs, Path.firstSpellings_sublist dirs⟩,
    Path.dedup_dedup dirs, fun hShort => ⟨fun v hSearchable => ?_, fun s c o hListed hGrace => ?_⟩⟩
  · have hSame : validateDirs v (Path.dedup dirs) = validateDirs v dirs :=
      validateDirs_dedup fun p hp q hq hSpellings =>
        Volume.isDir_of_sameAs hSpellings (hShort q hq) (hSearchable p hp)
    refine ⟨hSame, fun c o hListed hGrace => ?_⟩
    rw [Config.validate_override hGrace, hListed, hSame]
  · have hSame : validateDirs s.disk (Path.dedup dirs) = validateDirs s.disk dirs :=
      validateDirs_dedup fun p _ q hq hSpellings => Disk.isDir_of_sameAs hSpellings (hShort q hq)
    rw [Config.validate_override hGrace, hListed, hSame]
    exact s.beginUpdate_checked dirs

/-- A directory, a link to it and a regular file. -/
def cupboard : Disk where
  entries := [([.text "d"], .dir), ([.text "f"], .file default), ([.text "l"], .link (.text "d"))]
  home := []

/-- A link and a file, each with a slash at the end and without. -/
def respelled : List Path :=
  [⟨"l/"⟩, ⟨"f"⟩, ⟨"l"⟩, ⟨"./d"⟩, ⟨"f/"⟩]

/-- A file is there, but with a slash at the end it is missing: the error is that of the spelling
that comes first. -/
theorem first_spelling_is_reported :
    Path.dedup respelled = [⟨"l/"⟩, ⟨"f"⟩, ⟨"./d"⟩] ∧
      (∀ dir ∈ respelled, dir.native.size < Disk.maxPath) ∧
      checkDir cupboard ⟨"f/"⟩ = .error (.missingDirectory ⟨"f/"⟩) ∧
      validateDirs cupboard.volume respelled =
        .error (.invalidPath ⟨"f"⟩ "not a directory") ∧
      validateDirs cupboard.volume (Path.dedup respelled) =
        .error (.invalidPath ⟨"f"⟩ "not a directory") ∧
      (({ disk := cupboard } : Service).beginUpdate respelled).1.answerTo?
        (({ disk := cupboard } : Service).beginUpdate respelled).2 =
          some (.error (.config (.invalidPath ⟨"f"⟩ "not a directory"))) := by
  have hShort : ∀ dir ∈ respelled, dir.native.size < Disk.maxPath := by decide +kernel
  have hFault : validateDirs cupboard.volume respelled =
      .error (.invalidPath ⟨"f"⟩ "not a directory") := by decide +kernel
  obtain ⟨-, -, hOrders⟩ := repeats_pass_or_fail_alike respelled
  obtain ⟨hVolumes, hServices⟩ := hOrders hShort
  obtain ⟨hSame, -⟩ := hVolumes cupboard.volume fun _ _ _ _ => rfl
  have hEffective : (Config.override {} { dirs := respelled }).validate cupboard =
      .error (.invalidPath ⟨"f"⟩ "not a directory") := by decide +kernel
  refine ⟨by decide +kernel, hShort, by decide +kernel, hFault, hSame.trans hFault, ?_⟩
  exact (hServices { disk := cupboard } {} { dirs := respelled } rfl (by decide)).2 _ hEffective

/-- A directory in which nobody may look names up. -/
def closedOff : Volume where
  disk := ⟨[([.text "a"], .dir)], []⟩
  inode place := if place = [.text "a"] then { searchable := false } else {}

/-- A directory that nobody may look through is there, but not if `.` is added to its path: a repeat
fails that is not there any more once repeats are dropped. And a list that is good for an update is
refused in a configuration whose grace period is zero. -/
theorem repeat_of_closed_directory_fails :
    (validateDirs closedOff [⟨"a"⟩, ⟨"a/."⟩] = .error (.missingDirectory ⟨"a/."⟩) ∧
      validateDirs closedOff (Path.dedup [⟨"a"⟩, ⟨"a/."⟩]) = .ok ()) ∧
    ({ disk := closedOff.disk : Service }.beginUpdate [⟨"a"⟩] =
        { disk := closedOff.disk : Service }.enqueue (.update [⟨"a"⟩]) ∧
      (Config.override {} { dirs := [⟨"a"⟩], gracePeriodMs := some 0 }).validate closedOff.disk =
        .error (.invalidOption "grace_period_ms" "must be greater than zero")) := by
  refine ⟨by decide +kernel, ?_, by decide +kernel⟩
  exact (Service.beginUpdate_checked _ _).1 (by decide +kernel)

end TreeWatch
