import TreeWatch.Proofs.Walks

/-!
# Alterations of the tree

Others change the tree under a watch: they make an entry under a free name, take one away, or give
one another name, in the same directory or elsewhere. Where the watch is concerned, an alteration
gives up one place, takes one, or both (`Alteration.gone`, `Alteration.come`), and what it does to
the tree is said by these two places alone (`Disk.Shift`).

Main results:
  * `Alteration.wellFormed`: a tree stays a tree
  * `Alteration.shift`: what an alteration does to the tree
-/

namespace TreeWatch

/-- A change that somebody makes to the tree. -/
inductive Alteration where
  | create (dir : Place) (name : Name) (entry : Entry)
  | remove (place : Place)
  | rename (source dir : Place) (name : Name)

/-- What a change did to the tree: the place that is given up is empty, the one that is taken is
not, and whatever else stood at the latter or below it made room for something to watch. -/
structure Disk.Shift (d d' : Disk) (gone come : Option Place) : Prop where
  elsewhere : ∀ q, (∀ g ∈ gone, ¬ g <+: q) → (∀ t ∈ come, ¬ t <+: q) → d'.get? q = d.get? q
  cleared : ∀ g ∈ gone, ∀ q, g <+: q → d'.get? q = none
  present : ∀ t ∈ come, ∃ e, d'.get? t = some e
  replaced : ∀ t ∈ come, ∀ q e, t <+: q → d.get? q = some e →
    ∃ f, d'.get? q = some f ∧ f.isWatched = true

namespace Alteration

variable {d : Disk} {a : Alteration}

/-- The tree afterwards. -/
def run (d : Disk) : Alteration → Disk
  | create dir name entry => d.set (dir ++ [name]) entry
  | remove place => d.eraseTree place
  | rename source dir name => d.renamed source (dir ++ [name])

/-- The place that is given up. -/
def gone : Alteration → Option Place
  | create _ _ _ => none
  | remove place => some place
  | rename source _ _ => some source

/-- The place that is taken. -/
def come : Alteration → Option Place
  | create dir name _ => some (dir ++ [name])
  | remove _ => none
  | rename _ dir name => some (dir ++ [name])

/-- What the system lets anybody do to directories and regular files. -/
def May (d : Disk) : Alteration → Prop
  | create dir name entry =>
    d.get? dir = some .dir ∧ Name.Valid name ∧ d.get? (dir ++ [name]) = none ∧
      entry.isWatched = true
  | remove place => place ≠ [] ∧ ∃ e, d.get? place = some e
  | rename source dir name =>
    d.MayRename source dir name ∧ ∃ e, d.get? source = some e ∧ e.isWatched = true

/-- **A tree stays a tree.** -/
theorem wellFormed (h : d.WellFormed) (hMay : a.May d) : (a.run d).WellFormed := by
  cases a with
  | create dir name entry =>
    obtain ⟨hDir, hName, hFree, -⟩ := hMay
    exact h.set hDir hName (by simp [hFree])
  | remove place => exact h.eraseTree hMay.1
  | rename source dir name => exact h.renamed hMay.1

/-- The places of an alteration are such as entries can have. -/
theorem valid (h : d.WellFormed) (hMay : a.May d) {place : Place}
    (hPlace : place ∈ a.gone ∨ place ∈ a.come) : ∀ name ∈ place, Name.Valid name := by
  have hTaken {dir : Place} {name : Name} (hDir : d.get? dir = some .dir)
      (hName : Name.Valid name) : ∀ n ∈ dir ++ [name], Name.Valid n := by
    intro n hn
    rcases List.mem_append.mp hn with hn | hn
    · exact h.valid_of_get? hDir n hn
    · exact List.mem_singleton.mp hn ▸ hName
  cases a with
  | create dir name entry =>
    obtain ⟨hDir, hName, -, -⟩ := hMay
    rcases hPlace with hPlace | hPlace
    · cases hPlace
    · exact Option.some.inj hPlace ▸ hTaken hDir hName
  | remove place' =>
    obtain ⟨-, e, hEntry⟩ := hMay
    rcases hPlace with hPlace | hPlace
    · exact Option.some.inj hPlace ▸ h.valid_of_get? hEntry
    · cases hPlace
  | rename source dir name =>
    obtain ⟨hRename, e, hEntry, -⟩ := hMay
    rcases hPlace with hPlace | hPlace
    · exact Option.some.inj hPlace ▸ h.valid_of_get? hEntry
    · exact Option.some.inj hPlace ▸ hTaken hRename.directory hRename.valid

/-! ## What they do to the tree -/

theorem shift_create (h : d.WellFormed) {dir : Place} {name : Name} {entry : Entry}
    (hMay : (create dir name entry).May d) :
    d.Shift ((create dir name entry).run d) none (some (dir ++ [name])) := by
  obtain ⟨hDir, hName, hFree, hWatched⟩ := hMay
  have hNonempty : dir ++ [name] ≠ [] := by simp
  refine ⟨fun q _ hElse => ?_, fun g hg => (Option.not_mem_none g hg).elim, fun t ht => ?_,
    fun t ht q e hBelow hEntry => ?_⟩
  · show (d.set _ entry).get? q = _
    rw [Disk.get?_set h hNonempty, if_neg]
    rintro rfl
    exact hElse _ rfl List.prefix_rfl
  · cases ht
    exact ⟨entry, by rw [run, Disk.get?_set h hNonempty, if_pos rfl]⟩
  · -- nothing stands below a free name
    cases ht
    obtain ⟨names, rfl⟩ := hBelow
    by_cases hNames : names = []
    · rw [hNames, List.append_nil, hFree] at hEntry
      cases hEntry
    · rw [h.ancestor hNames hEntry] at hFree
      cases hFree

theorem shift_remove (h : d.WellFormed) {place : Place} (hMay : (remove place).May d) :
    d.Shift ((remove place).run d) (some place) none := by
  refine ⟨fun q hElse _ => ?_, fun g hg q hBelow => ?_, fun t ht => (Option.not_mem_none t ht).elim,
    fun t ht => (Option.not_mem_none t ht).elim⟩
  · rw [run, Disk.get?_eraseTree h hMay.1, if_neg (hElse place rfl)]
  · cases hg
    rw [run, Disk.get?_eraseTree h hMay.1, if_pos hBelow]

theorem shift_rename (h : d.WellFormed) {source dir : Place} {name : Name}
    (hMay : (rename source dir name).May d) :
    d.Shift ((rename source dir name).run d) (some source) (some (dir ++ [name])) := by
  obtain ⟨hRename, e, hEntry, hWatched⟩ := hMay
  obtain ⟨hMoved, hElse⟩ := h.get?_renamed hRename
  have hTaken : (d.renamed source (dir ++ [name])).get? (dir ++ [name]) = some e := by
    have hHere := hMoved []
    rwa [List.append_nil, List.append_nil, hEntry] at hHere
  refine ⟨fun q hNotGone hNotCome => ?_, fun g hg q hBelow => ?_, fun t ht => ?_,
    fun t ht q f hBelow hOld => ?_⟩
  · rw [run, hElse q (hNotCome _ rfl), if_neg (hNotGone _ rfl)]
  · cases hg
    have hApart : ¬ dir ++ [name] <+: q := by
      intro hIn
      rcases List.prefix_or_prefix_of_prefix hBelow hIn with hSide | hSide
      · exact hRename.apart.1 hSide
      · exact hRename.apart.2 hSide
    rw [run, hElse q hApart, if_pos hBelow]
  · cases ht
    exact ⟨e, hTaken⟩
  · -- what was replaced held nothing
    cases ht
    obtain ⟨names, rfl⟩ := hBelow
    have hNames : names = [] := by
      by_contra hNames
      rw [Disk.checkReplace_below h hRename.free hEntry hNames] at hOld
      cases hOld
    rw [hNames, List.append_nil]
    exact ⟨e, hTaken, hWatched⟩

/-- **What an alteration does** to the tree. -/
theorem shift (h : d.WellFormed) (hMay : a.May d) : d.Shift (a.run d) a.gone a.come := by
  cases a with
  | create dir name entry => exact shift_create h hMay
  | remove place => exact shift_remove h hMay
  | rename source dir name => exact shift_rename h hMay

end Alteration

end TreeWatch
