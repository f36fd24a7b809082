import TreeWatch.Proofs.Footprints
import TreeWatch.Proofs.Rendering

/-!
# The counter counts the bumps that succeeded

A root directory starts without a counter and without anything under the name of a sibling. From
then on it is bumped, and others change the disk in between. As long as they leave those names
alone, but for a directory in the way of the sibling, and put nothing else in the place of the root
when they move it away, the counter is the number of bumps that succeeded so far. It is the number
even though it passes through the text of a file each time, and is found under its name and read
again.

Main results:
  * `nextVersion_nthVersion`: the numbers come one after another
  * `parse_countedFile`: the contents of the counter are read as they were written
  * `Disk.StandsAt.bump_ok`, `Disk.StandsAt.bump_error`: what one bump does to the counter
  * `Disk.StandsAt.spared`: what a change by others does
  * `counter_counts_bumps`: any history
-/

namespace TreeWatch

/-! ## The numbers -/

/-- The number of the bump that is the `k`-th to succeed: they count from 1 to the largest number,
and then from 1 again. -/
def nthVersion (k : Nat) : UInt64 :=
  UInt64.ofNat ((k - 1) % (UInt64.size - 1) + 1)

theorem toNat_nthVersion (k : Nat) : (nthVersion k).toNat = (k - 1) % (UInt64.size - 1) + 1 := by
  have hSmall := Nat.mod_lt (k - 1) (show 0 < UInt64.size - 1 by decide)
  exact UInt64.toNat_ofNat_of_lt' (by omega)

/-- **One after another**, from the first on. -/
theorem nextVersion_nthVersion {k : Nat} (h : 0 < k) :
    nextVersion (nthVersion k) = nthVersion (k + 1) := by
  have hHere := toNat_nthVersion k
  have hNext := toNat_nthVersion (k + 1)
  have hSize : UInt64.size = 18446744073709551616 := rfl
  rw [hSize] at hHere hNext
  apply UInt64.toNat_inj.mp
  rw [hNext]
  unfold nextVersion
  split
  · next hRoom =>
    rw [UInt64.toNat_add, UInt64.toNat_one]
    omega
  · next hLast =>
    rw [UInt64.toNat_one]
    omega

/-! ## The contents -/

/-- What the counter holds after so many bumps, if it held nothing before the first of them. -/
def countedFile : Nat → CounterFile
  | 0 => {}
  | k + 1 => ({} : CounterFile).setVersion (nthVersion (k + 1))

/-- A new file with its version set is plain. -/
theorem plain_setVersion_new (n : UInt64) : (({} : CounterFile).setVersion n).Plain where
  unreturned line hLine := by
    have hLines : (({} : CounterFile).setVersion n).lines =
        [sectionLine, versionLine counterKey.toList n] := rfl
    rw [hLines] at hLine
    rcases List.mem_cons.mp hLine with rfl | hLater
    · decide
    · obtain rfl := List.mem_singleton.mp hLater
      intro hLast
      have hMem : '\r' ∈ counterKey.toList ++ '=' :: Numeral.write n := List.mem_of_getLast? hLast
      rcases List.mem_append.mp hMem with hKey | hValue
      · revert hKey
        decide
      rcases List.mem_cons.mp hValue with hSign | hDigit
      · revert hSign
        decide
      · have hNumber : Char.isDigit '\r' = true := Numeral.isDigit_of_mem_write hDigit
        revert hNumber
        decide
  unmarked := by
    intro line hFirst
    cases hFirst
    decide

/-- **The contents come back** when they are read. -/
theorem parse_countedFile (k : Nat) :
    CounterFile.parse (countedFile k).render = .ok (countedFile k) := by
  cases k with
  | zero => decide
  | succ k =>
    have hDerived : (countedFile (k + 1)).Derived := .set .new _
    exact (plain_setVersion_new _).parse_render hDerived.legible

theorem version_countedFile {k : Nat} (h : 0 < k) :
    (countedFile k).version = .ok (nthVersion k) := by
  obtain ⟨j, rfl⟩ := Nat.exists_eq_add_one.mpr h
  exact CounterFile.version_setVersion {} _

/-- The next bump sets the next number. -/
theorem bumped_countedFile (path : Path) (k : Nat) :
    nextVersion (startingVersion path (countedFile k)).1 = nthVersion (k + 1) ∧
      (countedFile k).setVersion (nthVersion (k + 1)) = countedFile (k + 1) := by
  cases k with
  | zero => exact ⟨rfl, rfl⟩
  | succ k =>
    have hVersion := version_countedFile (Nat.succ_pos k)
    constructor
    · unfold startingVersion
      rw [hVersion]
      exact nextVersion_nthVersion (Nat.succ_pos k)
    · exact CounterFile.setVersion_setVersion {} _ _

/-! ## The root directory -/

/-- Whether a name is that of the sibling of a counter, in any ASCII case. -/
def isTemporaryName (name : String) : Bool :=
  sameIgnoringCase name.toList (counterFileName ++ temporarySuffix).toList

namespace Disk

/-- Where the root directory is. Its path leads to it or, while it is away, to no directory. -/
structure RootAt (d : Disk) (root : Path) (dir : Place) : Prop where
  sound : d.Sound
  directory : d.get? dir = some .dir
  only : ∀ other, d.Enters root other → other = dir

/-- What a root directory holds after so many successful bumps: under the names of counters the
contents of that bump, in one file with the usual name, and nothing if there was none. Under the
names of siblings there is nothing, or a directory that is in the way, or a file that was left
behind. -/
structure StandsAt (d : Disk) (dir : Place) (k : Nat) : Prop where
  counter : ∀ s, isCounterName s = true → d.get? (dir ++ [.text s]) =
    if 0 < k ∧ s = counterFileName then some (.file (.text (countedFile k).render)) else none
  sibling : ∀ s, isTemporaryName s = true → d.get? (dir ++ [.text s]) = none ∨
    s = counterFileName ++ temporarySuffix ∧ (d.get? (dir ++ [.text s]) = some .dir ∨
      ∃ contents, d.get? (dir ++ [.text s]) = some (.file contents))

/-- A change that leaves the counter alone, wherever it takes the root directory. Under the name of
the sibling a directory may appear where there is nothing, or go away. -/
structure Spares (root : Path) (d : Disk) (dir : Place) (d' : Disk) (dir' : Place) : Prop where
  rooted : d'.RootAt root dir'
  kept : ∀ s, isCounterName s = true ∨ isTemporaryName s = true →
    d'.get? (dir' ++ [.text s]) = d.get? (dir ++ [.text s]) ∨
      s = counterFileName ++ temporarySuffix ∧
        (d.get? (dir ++ [.text s]) = none ∧ d'.get? (dir' ++ [.text s]) = some .dir ∨
          d.get? (dir ++ [.text s]) = some .dir ∧ d'.get? (dir' ++ [.text s]) = none)

end Disk

/-! ## Names of siblings -/

theorem isTemporaryName_append {name : String} (h : isCounterName name = true) :
    isTemporaryName (name ++ temporarySuffix) = true := by
  unfold isCounterName sameIgnoringCase at h
  unfold isTemporaryName sameIgnoringCase
  rw [String.toList_append, String.toList_append, List.map_append, List.map_append, eq_of_beq h]
  exact beq_self_eq_true _

/-- No name is that of a counter and of a sibling. -/
theorem not_isTemporaryName {name : String} (h : isCounterName name = true) :
    ¬ isTemporaryName name = true := by
  intro hSibling
  have hLength := length_of_isCounterName h
  unfold isTemporaryName sameIgnoringCase at hSibling
  have hLonger := congrArg List.length (eq_of_beq hSibling)
  rw [List.length_map, List.length_map, hLength] at hLonger
  revert hLonger
  decide

/-! ## One bump -/

namespace Disk

variable {h : Hazard} {d d' : Disk} {root : Path} {dir dir' : Place} {k : Nat}

theorem StandsAt.unbaited (hStands : d.StandsAt dir k) : d.Unbaited dir := by
  intro name hName target hLink
  rcases hStands.sibling _ (isTemporaryName_append hName) with hNone | ⟨-, hDir | ⟨contents, hFile⟩⟩
  · rw [hLink] at hNone
    cases hNone
  · rw [hLink] at hDir
    cases hDir
  · rw [hLink] at hFile
    cases hFile

/-- The counter is under its usual name, or will be. -/
theorem StandsAt.counterPath_eq (hRoot : d.RootAt root dir) (hStands : d.StandsAt dir k) :
    counterPath d root = root.join ⟨counterFileName⟩ := by
  obtain ⟨name, hName, hPath, rfl | ⟨entries, contents, hList, hMem⟩⟩ := counterPath_spec d root
  · exact hPath
  -- a file that was found in the directory can only be the counter
  obtain ⟨found, hFound, rfl⟩ := hRoot.sound.listed hList
  obtain rfl := hRoot.only found hFound
  have hFile := get?_of_mem hRoot.sound.distinct (by simp) ((mem_children d found).mp hMem)
  rw [hStands.counter name hName] at hFile
  split at hFile
  · next hUsual => rw [hPath, hUsual.2]
  · cases hFile

/-- The file that a bump starts from is the one that the last bump wrote. -/
theorem StandsAt.startingFile_eq (hRoot : d.RootAt root dir) (hStands : d.StandsAt dir k)
    (hEnters : d.Enters root dir) (hUsable : (counterPath d root).Usable) :
    (startingFile d (counterPath d root)).1 = countedFile k := by
  have hPath := hStands.counterPath_eq hRoot
  obtain ⟨hFile, -⟩ := entries_of_counterPath isCounterName_counterFileName hPath
  have hHere := hStands.counter counterFileName isCounterName_counterFileName
  cases k with
  | zero =>
    -- there is nothing to read, so the file is a new one
    have hNone : d.get? (dir ++ [.text counterFileName]) = none := hHere
    have hFind : d.find .target (counterPath d root).native = .error .notFound := by
      unfold find
      rw [hFile.locate hEnters hUsable (Or.inr (by simp [hNone])), leaf, if_neg (by simp [hNone])]
      rfl
    unfold startingFile loadCounter
    rw [fileSystem_readText, readText, stat]
    simp only [hFind, bind, Except.bind, Except.mapError]
    rfl
  | succ k =>
    rw [if_pos ⟨Nat.succ_pos k, rfl⟩] at hHere
    have hFind : d.find .target (counterPath d root).native = .ok _ :=
      hFile.find hEnters hUsable (Or.inr (by simp [hHere])) hHere
    unfold startingFile loadCounter
    rw [fileSystem_readText, readText, stat]
    simp only [hFind, bind, Except.bind, hHere, Option.getD_some, pure, Except.pure,
      Except.mapError, parse_countedFile]

theorem StandsAt.bumped_eq (hRoot : d.RootAt root dir) (hStands : d.StandsAt dir k)
    (hEnters : d.Enters root dir) (hUsable : (counterPath d root).Usable) :
    bumpedVersion d root = nthVersion (k + 1) ∧
      bumpedText d root = (countedFile (k + 1)).render := by
  have hStart := hStands.startingFile_eq hRoot hEnters hUsable
  obtain ⟨hVersion, hFile⟩ := bumped_countedFile (counterPath d root) k
  have hNumber : bumpedVersion d root = nthVersion (k + 1) := by
    unfold bumpedVersion
    dsimp only
    rw [hStart, hVersion]
  refine ⟨hNumber, ?_⟩
  unfold bumpedText
  rw [hStart, hNumber, hFile]

/-- Where nothing but a counter and its sibling has changed, no link has. -/
theorem StandsAt.link_kept (hStands : d.StandsAt dir k)
    (hKept : ∀ q, q ≠ dir ++ [.text counterFileName] →
      q ≠ dir ++ [.text (counterFileName ++ temporarySuffix)] → d'.get? q = d.get? q)
    (q : Place) (target : ByteString) (hLink : d.get? q = some (.link target)) :
    d'.get? q = d.get? q := by
  refine hKept q ?_ ?_
  · rintro rfl
    rw [hStands.counter _ isCounterName_counterFileName] at hLink
    split at hLink <;> cases hLink
  · rintro rfl
    exact hStands.unbaited _ isCounterName_counterFileName target hLink

/-- A bump leaves the root directory where it is. -/
theorem StandsAt.rootAt_bump (hRoot : d.RootAt root dir) (hStands : d.StandsAt dir k)
    (h : Hazard) : (bump h d root).disk.RootAt root dir := by
  rcases enters_or_stray h d root with ⟨other, hEnters⟩ | ⟨-, hSame, -⟩
  · obtain rfl := hRoot.only other hEnters
    have hBait := hStands.unbaited
    have hRewritten := bump_rewritten h hRoot.sound hEnters hBait
    have hWays := hRewritten.sameWays <| hStands.link_kept fun q =>
      bump_kept h hRoot.sound hEnters hBait isCounterName_counterFileName
        (hStands.counterPath_eq hRoot)
    exact ⟨hRewritten.sound, hRewritten.get?_dir hRoot.directory,
      fun found hFound => hRoot.only found (hFound.of_sameWays hWays.symm)⟩
  · rw [hSame]
    exact hRoot

/-- The counter where the sibling has taken its place, and all else is as it was. -/
theorem StandsAt.next (hStands : d.StandsAt dir k)
    (hNew : d'.get? (dir ++ [.text counterFileName]) =
      some (.file (.text (countedFile (k + 1)).render)))
    (hNone : d'.get? (dir ++ [.text (counterFileName ++ temporarySuffix)]) = none)
    (hKept : ∀ q, q ≠ dir ++ [.text counterFileName] →
      q ≠ dir ++ [.text (counterFileName ++ temporarySuffix)] → d'.get? q = d.get? q) :
    d'.StandsAt dir (k + 1) := by
  have hApart {s u : String} (hNe : s ≠ u) : dir ++ [.text s] ≠ dir ++ [.text u] := by
    simpa using hNe
  refine ⟨fun s hName => ?_, fun s hName => ?_⟩
  · by_cases hHere : s = counterFileName
    · subst hHere
      rw [if_pos ⟨Nat.succ_pos k, rfl⟩, hNew]
    · have hLonger : s ≠ counterFileName ++ temporarySuffix := by
        rintro rfl
        exact not_isTemporaryName hName (isTemporaryName_append isCounterName_counterFileName)
      rw [hKept _ (hApart hHere) (hApart hLonger), hStands.counter s hName,
        if_neg fun hThis => hHere hThis.2, if_neg fun hThis => hHere hThis.2]
  · by_cases hHere : s = counterFileName ++ temporarySuffix
    · subst hHere
      exact Or.inl hNone
    · have hShorter : s ≠ counterFileName := by
        rintro rfl
        exact not_isTemporaryName isCounterName_counterFileName hName
      refine Or.inl ?_
      rw [hKept _ (hApart hShorter) (hApart hHere)]
      exact (hStands.sibling s hName).resolve_right fun hThis => hHere hThis.1

/-- The counter where nothing but the sibling may have been written or removed. -/
theorem StandsAt.same (hStands : d.StandsAt dir k) (hRewritten : d.Rewritten dir d')
    (hKept : ∀ s, s ≠ counterFileName ++ temporarySuffix →
      d'.get? (dir ++ [.text s]) = d.get? (dir ++ [.text s])) : d'.StandsAt dir k := by
  refine ⟨fun s hName => ?_, fun s hName => ?_⟩
  · rw [hKept, hStands.counter s hName]
    rintro rfl
    exact not_isTemporaryName hName (isTemporaryName_append isCounterName_counterFileName)
  · by_cases hHere : s = counterFileName ++ temporarySuffix
    · -- what was left of the sibling is a file
      rcases hRewritten.places (dir ++ [.text s]) with hSame | ⟨-, -, hNone | hFile⟩
      · rw [hSame]
        exact hStands.sibling s hName
      · exact Or.inl hNone
      · exact Or.inr ⟨hHere, Or.inr hFile⟩
    · rw [hKept s hHere]
      exact hStands.sibling s hName

/-- **What a bump that succeeds does**: it returns the next number, and the counter stands there. -/
theorem StandsAt.bump_ok (hRoot : d.RootAt root dir) (hStands : d.StandsAt dir k) {n : UInt64}
    (hOk : (bump h d root).result = .ok n) :
    n = nthVersion (k + 1) ∧ (bump h d root).disk.StandsAt dir (k + 1) := by
  have hPath := hStands.counterPath_eq hRoot
  obtain ⟨hCounter, hTemporary⟩ := entries_of_counterPath isCounterName_counterFileName hPath
  -- only a root that leads to a directory can be bumped
  obtain ⟨other, hEnters⟩ : ∃ other, d.Enters root other := by
    refine (enters_or_stray h d root).resolve_right ?_
    rintro ⟨-, -, e, hError⟩
    rw [hError] at hOk
    cases hOk
  obtain rfl := hRoot.only other hEnters
  have hBait := hStands.unbaited
  obtain ⟨result, left, hReached, hResult⟩ := bump_reached h hRoot.sound hEnters hBait
  rw [hResult] at hOk
  cases result with
  | error fault => cases hOk
  | ok done =>
    have hReturned : bumpedVersion d root = n := Except.ok.inj hOk
    obtain ⟨-, ⟨place, hNames, -, hNew⟩, ⟨gone, hGone, -, hNone⟩, -⟩ : Swapped _ _ _ _ _ := hReached
    have hUsable := (hCounter.names.mp hNames).1
    obtain ⟨hNumber, hText⟩ := hStands.bumped_eq hRoot hEnters hUsable
    obtain rfl := hCounter.place_eq hEnters hNames
    obtain rfl := hTemporary.place_eq hEnters hGone
    rw [hText] at hNew
    refine ⟨hReturned.symm.trans hNumber, hStands.next hNew hNone fun q => ?_⟩
    exact bump_kept h hRoot.sound hEnters hBait isCounterName_counterFileName hPath

/-- **What a bump that fails does** to the counter: nothing. -/
theorem StandsAt.bump_error (hRoot : d.RootAt root dir) (hStands : d.StandsAt dir k)
    {e : WatchError} (hError : (bump h d root).result = .error e) :
    (bump h d root).disk.StandsAt dir k := by
  rcases enters_or_stray h d root with ⟨other, hEnters⟩ | ⟨-, hSame, -⟩
  · obtain rfl := hRoot.only other hEnters
    have hBait := hStands.unbaited
    obtain ⟨-, hTemporary⟩ :=
      entries_of_counterPath isCounterName_counterFileName (hStands.counterPath_eq hRoot)
    obtain ⟨result, left, hReached, hResult⟩ := bump_reached h hRoot.sound hEnters hBait
    rw [hResult] at hError
    cases result with
    | ok done => cases hError
    | error fault =>
      have hOthers := GivenUp.others hReached
      refine hStands.same (bump_rewritten h hRoot.sound hEnters hBait) fun s hApart => ?_
      refine hOthers _ fun hNames => hApart ?_
      have hPlace := hTemporary.place_eq hEnters hNames
      simpa using hPlace
  · rw [hSame]
    exact hStands

/-- **What others do**, as long as they spare the counter. -/
theorem StandsAt.spared (hStands : d.StandsAt dir k) (hSpares : d.Spares root dir d' dir') :
    d'.StandsAt dir' k := by
  refine ⟨fun s hName => ?_, fun s hName => ?_⟩
  · rcases hSpares.kept s (Or.inl hName) with hSame | ⟨rfl, -⟩
    · rw [hSame, hStands.counter s hName]
    · exact absurd (isTemporaryName_append isCounterName_counterFileName)
        (not_isTemporaryName hName)
  · rcases hSpares.kept s (Or.inr hName) with hSame | ⟨hHere, ⟨-, hDir⟩ | ⟨-, hNone⟩⟩
    · rw [hSame]
      exact hStands.sibling s hName
    · exact Or.inr ⟨hHere, Or.inl hDir⟩
    · exact Or.inl hNone

end Disk

/-- What may have come about since a root directory had nothing under the names of counters and
siblings: the disk, the place of the directory, and the numbers that bumps returned. -/
inductive CounterHistory (root : Path) : Disk → Place → List UInt64 → Prop where
  | start {d : Disk} {dir : Place} (hRoot : d.RootAt root dir)
      (hFresh : ∀ s, isCounterName s = true ∨ isTemporaryName s = true →
        d.get? (dir ++ [.text s]) = none) :
      CounterHistory root d dir []
  | bumped {d : Disk} {dir : Place} {numbers : List UInt64} (h : Hazard)
      (earlier : CounterHistory root d dir numbers) :
      CounterHistory root (bump h d root).disk dir
        (numbers ++ (bump h d root).result.toOption.toList)
  | changed {d d' : Disk} {dir dir' : Place} {numbers : List UInt64}
      (hSpares : d.Spares root dir d' dir') (earlier : CounterHistory root d dir numbers) :
      CounterHistory root d' dir' numbers

/-! ## Any history -/

variable {root : Path} {d : Disk} {dir : Place} {numbers : List UInt64}

/-- **What a history keeps**: the numbers returned are the first ones, in order, and the counter
stands at the last of them. -/
theorem CounterHistory.counts (history : CounterHistory root d dir numbers) :
    d.RootAt root dir ∧ d.StandsAt dir numbers.length ∧
      numbers = (List.range numbers.length).map fun i => nthVersion (i + 1) := by
  induction history with
  | start hRoot hFresh =>
    refine ⟨hRoot, ⟨fun s hName => ?_, fun s hName => Or.inl (hFresh s (Or.inr hName))⟩, rfl⟩
    rw [hFresh s (Or.inl hName), if_neg fun hSome => absurd hSome.1 (Nat.lt_irrefl 0)]
  | @bumped d dir numbers h earlier ih =>
    obtain ⟨hRoot, hStands, hNumbers⟩ := ih
    refine ⟨hStands.rootAt_bump hRoot h, ?_⟩
    cases hResult : (bump h d root).result with
    | error e =>
      have hNone : numbers ++ (Except.error e : Except WatchError UInt64).toOption.toList =
          numbers := List.append_nil numbers
      rw [hNone]
      exact ⟨hStands.bump_error hRoot hResult, hNumbers⟩
    | ok n =>
      obtain ⟨rfl, hNext⟩ := hStands.bump_ok hRoot hResult
      have hLength : (numbers ++ (Except.ok (nthVersion (numbers.length + 1)) :
          Except WatchError UInt64).toOption.toList).length = numbers.length + 1 :=
        List.length_append
      rw [hLength]
      refine ⟨hNext, ?_⟩
      rw [List.range_succ, List.map_append, ← hNumbers]
      rfl
  | changed hSpares earlier ih =>
    obtain ⟨-, hStands, hNumbers⟩ := ih
    exact ⟨hSpares.rooted, hStands.spared hSpares, hNumbers⟩

/--
**The counter counts the bumps that succeeded.** Take any history of a root directory that starts
with nothing under the names of counters and of their siblings: bumps with whatever going wrong, and
in between any changes of the disk that spare the counter and leave the path of the root leading to
the directory or, while it is away, to none.
* The numbers returned are 1, 2, 3 and so on up to the largest number, and then 1 again.
* Before the first of them there is no counter in the directory. After that there is one file with
  the name of a counter and nothing else with such a name; its contents are accepted, and its
  version is the number returned last.
* A bump that fails leaves all this as it is.
-/
theorem counter_counts_bumps (history : CounterHistory root d dir numbers) :
    numbers = ((List.range numbers.length).map fun i => nthVersion (i + 1)) ∧
      (numbers = [] → ∀ s, isCounterName s = true → d.get? (dir ++ [.text s]) = none) ∧
      (numbers ≠ [] → ∃ name text file, isCounterName name = true ∧
        d.get? (dir ++ [.text name]) = some (.file (.text text)) ∧
        (∀ s, isCounterName s = true → s ≠ name → d.get? (dir ++ [.text s]) = none) ∧
        CounterFile.parse text = .ok file ∧ file.version = .ok (nthVersion numbers.length)) ∧
      ∀ h e, (bump h d root).result = .error e → ∀ s, isCounterName s = true →
        (bump h d root).disk.get? (dir ++ [.text s]) = d.get? (dir ++ [.text s]) := by
  obtain ⟨hRoot, hStands, hNumbers⟩ := history.counts
  refine ⟨hNumbers, fun hNone s hName => ?_, fun hSome => ?_, fun h e hError s hName => ?_⟩
  · rw [hStands.counter s hName, hNone, if_neg fun hThis => absurd hThis.1 (Nat.lt_irrefl 0)]
  · have hPos := List.length_pos_iff.mpr hSome
    refine ⟨counterFileName, _, _, isCounterName_counterFileName, ?_, fun s hName hElse => ?_,
      parse_countedFile numbers.length, version_countedFile hPos⟩
    · rw [hStands.counter _ isCounterName_counterFileName, if_pos ⟨hPos, rfl⟩]
    · rw [hStands.counter s hName, if_neg fun hThis => hElse hThis.2]
  · rw [(hStands.bump_error hRoot hError).counter s hName, hStands.counter s hName]

/-- A disk with a root directory under some name and what lies in it. -/
def rootNamed (name : Name) (entries : List (Name × Entry)) : Disk where
  entries := ([name], .dir) :: entries.map fun e => ([name, e.1], e.2)
  home := []

/-- What lies in it does not depend on its name. -/
theorem get?_rootNamed (name : Name) (entries : List (Name × Entry)) (s : String) :
    (rootNamed name entries).get? ([name] ++ [.text s]) =
      (entries.find? fun e => e.1 = .text s).map Prod.snd := by
  unfold Disk.get? rootNamed
  rw [if_neg (by simp), List.find?_cons_of_neg (by simp), List.find?_map, Option.map_map]
  simp only [Function.comp_def, List.cons_append, List.nil_append, List.cons.injEq, true_and,
    and_true]

theorem Disk.RootAt.of_enters (hSound : d.Sound) (hEnters : d.Enters root dir) :
    d.RootAt root dir :=
  ⟨hSound, hSound.enters_dir hEnters, fun _ hOther => hOther.unique hEnters⟩

/-- A history goes on with a bump of which it is known how it ends. -/
theorem CounterHistory.bumped_to {h : Hazard} {d' : Disk} {after : List UInt64}
    (earlier : CounterHistory root d dir numbers) (hDisk : (bump h d root).disk = d')
    (hNumbers : numbers ++ (bump h d root).result.toOption.toList = after) :
    CounterHistory root d' dir after := by
  have hBumped := CounterHistory.bumped h earlier
  rwa [hDisk, hNumbers] at hBumped

/-- A bump fails because the disk is full, and the next one does not. Then the root directory is
moved away, and moved back with a directory in the way of the sibling; no bump succeeds until that
is gone. -/
theorem moved_root_counts_on :
    let one : Name × Entry := (.text "gpt.ini", .file (.text "[General]\nVersion=1\n"))
    let last : Disk := (bump .none (rootNamed (.text "r") [one]) ⟨"r"⟩).disk
    CounterHistory ⟨"r"⟩ last [.text "r"] [1, 2] ∧ ∃ name text file, isCounterName name = true ∧
      last.get? ([.text "r"] ++ [.text name]) = some (.file (.text text)) ∧
      CounterFile.parse text = .ok file ∧ file.version = .ok 2 := by
  intro one last
  let blocked : Name × Entry := (.text "gpt.ini.tmp", .dir)
  have hThere {entries : List (Name × Entry)} (hSound : (rootNamed (.text "r") entries).Sound)
      (hLeads : (rootNamed (.text "r") entries).enter Disk.maxLinks [] [.text "r"] =
        .ok (40, [.text "r"])) :
      (rootNamed (.text "r") entries).RootAt ⟨"r"⟩ [.text "r"] :=
    .of_enters hSound ⟨40, hLeads⟩
  have hAway : (rootNamed (.text "s") [one]).RootAt ⟨"r"⟩ [.text "s"] := by
    refine ⟨by decide, by decide, fun other ⟨left, hEnter⟩ => ?_⟩
    have hNowhere : (rootNamed (.text "s") [one]).enter Disk.maxLinks [] [.text "r"] =
        .error .notFound := by decide +kernel
    cases hNowhere.symm.trans hEnter
  have hMoved (s : String) : (rootNamed (.text "s") [one]).get? ([.text "s"] ++ [.text s]) =
      (rootNamed (.text "r") [one]).get? ([.text "r"] ++ [.text s]) := by
    rw [get?_rootNamed, get?_rootNamed]
  -- the directory is all that makes a difference
  have hBlocked (s : String) : s = "gpt.ini.tmp" ∧
      (rootNamed (.text "r") [one]).get? ([.text "r"] ++ [.text s]) = none ∧
        (rootNamed (.text "r") [one, blocked]).get? ([.text "r"] ++ [.text s]) = some .dir ∨
      (rootNamed (.text "r") [one, blocked]).get? ([.text "r"] ++ [.text s]) =
        (rootNamed (.text "r") [one]).get? ([.text "r"] ++ [.text s]) := by
    by_cases hHere : s = "gpt.ini.tmp"
    · subst hHere
      exact Or.inl ⟨rfl, by decide, by decide⟩
    · refine Or.inr ?_
      rw [get?_rootNamed, get?_rootNamed]
      simp [one, blocked, List.find?_cons, Ne.symm hHere]
  have started : CounterHistory ⟨"r"⟩ (rootNamed (.text "r") []) [.text "r"] [] :=
    .start (hThere (by decide) (by decide +kernel)) fun s _ => get?_rootNamed _ _ s
  have refused : CounterHistory ⟨"r"⟩ (rootNamed (.text "r") []) [.text "r"] [] :=
    started.bumped_to (h := fullDisk) (by decide +kernel) (by decide +kernel)
  have bumped : CounterHistory ⟨"r"⟩ (rootNamed (.text "r") [one]) [.text "r"] [1] :=
    refused.bumped_to (h := .none) (by decide +kernel) (by decide +kernel)
  have moved : CounterHistory ⟨"r"⟩ (rootNamed (.text "s") [one]) [.text "s"] [1] :=
    bumped.changed ⟨hAway, fun s _ => Or.inl (hMoved s)⟩
  have missed : CounterHistory ⟨"r"⟩ (rootNamed (.text "s") [one]) [.text "s"] [1] :=
    moved.bumped_to (h := .none) (by decide +kernel) (by decide +kernel)
  have back : CounterHistory ⟨"r"⟩ (rootNamed (.text "r") [one, blocked]) [.text "r"] [1] := by
    refine missed.changed ⟨hThere (by decide) (by decide +kernel), fun s _ => ?_⟩
    rw [hMoved s]
    rcases hBlocked s with ⟨hHere, hNone, hDir⟩ | hSame
    · exact Or.inr ⟨hHere, Or.inl ⟨hNone, hDir⟩⟩
    · exact Or.inl hSame
  have stopped : CounterHistory ⟨"r"⟩ (rootNamed (.text "r") [one, blocked]) [.text "r"] [1] :=
    back.bumped_to (h := .none) (by decide +kernel) (by decide +kernel)
  have freed : CounterHistory ⟨"r"⟩ (rootNamed (.text "r") [one]) [.text "r"] [1] := by
    refine stopped.changed ⟨hThere (by decide) (by decide +kernel), fun s _ => ?_⟩
    rcases hBlocked s with ⟨hHere, hNone, hDir⟩ | hSame
    · exact Or.inr ⟨hHere, Or.inr ⟨hDir, hNone⟩⟩
    · exact Or.inl hSame.symm
  have history : CounterHistory ⟨"r"⟩ last [.text "r"] [1, 2] :=
    freed.bumped_to (h := .none) rfl (by decide +kernel)
  obtain ⟨-, -, hStands, -⟩ := counter_counts_bumps history
  obtain ⟨name, text, file, hName, hFile, -, hParse, hVersion⟩ := hStands (by decide)
  exact ⟨history, name, text, file, hName, hFile, hParse, hVersion⟩

end TreeWatch
