import Mathlib.Data.List.Induction
import Mathlib.Data.List.Nodup
import TreeWatch.Disk.Access
import TreeWatch.Proofs.Components

/-!
# Places on a disk

A disk is well-formed if it is a tree: one entry for a place at most, under names that can be
names, and below directories only. What an operation does is said place by place (`get?`), and each
of them keeps a tree a tree.

Main results:
  * `Disk.WellFormed.ancestor`: what stands above an entry is a directory
  * `Disk.get?_set`, `Disk.get?_erase`, `Disk.get?_eraseTree`, `Disk.WellFormed.get?_renamed`: the
    places afterwards
  * `Disk.WellFormed.set`, `Disk.WellFormed.erase`, `Disk.WellFormed.eraseTree`,
    `Disk.WellFormed.renamed`: it stays a tree
  * `Disk.WellFormed.renamed_file`: both, for a file that is renamed within its directory
-/

namespace TreeWatch

/-- What the name of an entry can be. -/
structure Name.Valid (name : Name) : Prop where
  noSlash : 0x2F ∉ name.bytes
  noNul : 0 ∉ name.bytes
  short : name.size ≤ Disk.maxName
  proper : name ≠ .text "" ∧ name ≠ .text "." ∧ name ≠ .text ".."

instance (name : Name) : Decidable name.Valid :=
  decidable_of_iff (0x2F ∉ name.bytes ∧ 0 ∉ name.bytes ∧ name.size ≤ Disk.maxName ∧
      name ≠ .text "" ∧ name ≠ .text "." ∧ name ≠ .text "..")
    ⟨fun ⟨hSlash, hNul, hShort, hProper⟩ => ⟨hSlash, hNul, hShort, hProper⟩,
      fun h => ⟨h.noSlash, h.noNul, h.short, h.proper⟩⟩

theorem Name.Valid.isName {s : String} (h : Name.Valid (.text s)) : IsName s where
  noSlash := by
    intro hSlash
    refine h.noSlash (List.mem_flatMap.mpr ⟨'/', hSlash, ?_⟩)
    decide
  piece := by
    have hNe : ∀ t : String, (.text s : Name) ≠ .text t → s.toList ≠ t.toList := fun t hNe hEq =>
      hNe (congrArg ByteString.text (String.toList_inj.mp hEq))
    have hEmpty : s.toList ≠ [] := hNe "" h.proper.1
    have hHere : s.toList ≠ ['.'] := hNe "." h.proper.2.1
    have hUp : s.toList ≠ ['.', '.'] := hNe ".." h.proper.2.2
    unfold Path.component?
    rw [if_neg (by simp [hEmpty, hHere]), if_neg hUp, String.ofList_toList]

namespace Disk

/-- A disk that is a tree. -/
structure WellFormed (d : Disk) : Prop where
  distinct : (d.entries.map Prod.fst).Nodup
  nonempty : ∀ p e, (p, e) ∈ d.entries → p ≠ []
  valid : ∀ p e, (p, e) ∈ d.entries → ∀ name ∈ p, Name.Valid name
  parent : ∀ p name e, (p ++ [name], e) ∈ d.entries → d.get? p = some .dir

instance (d : Disk) : Decidable d.WellFormed :=
  decidable_of_iff ((d.entries.map Prod.fst).Nodup ∧ ∀ x ∈ d.entries, x.1 ≠ [] ∧
      (∀ name ∈ x.1, Name.Valid name) ∧ d.get? x.1.dropLast = some .dir) <| by
    constructor
    · rintro ⟨hDistinct, hAll⟩
      refine ⟨hDistinct, fun p e hMem => (hAll _ hMem).1, fun p e hMem => (hAll _ hMem).2.1,
        fun p name e hMem => ?_⟩
      simpa using (hAll _ hMem).2.2
    · intro h
      refine ⟨h.distinct, fun x hMem => ⟨h.nonempty _ _ hMem, h.valid _ _ hMem, ?_⟩⟩
      have hSplit := List.dropLast_append_getLast (h.nonempty _ _ hMem)
      refine h.parent x.1.dropLast (x.1.getLast (h.nonempty _ _ hMem)) x.2 ?_
      rwa [hSplit]

variable {d : Disk} {p q : Place} {e f : Entry}

@[simp] theorem get?_nil (d : Disk) : d.get? [] = some .dir :=
  rfl

/-! ## Entries and places -/

theorem mem_of_get? (hPlace : p ≠ []) (h : d.get? p = some e) : (p, e) ∈ d.entries := by
  rw [get?, if_neg hPlace, Option.map_eq_some_iff] at h
  obtain ⟨⟨q, f⟩, hFind, rfl⟩ := h
  have hHere : q = p := by simpa using List.find?_some hFind
  exact hHere ▸ List.mem_of_find?_eq_some hFind

theorem get?_of_mem (hDistinct : (d.entries.map Prod.fst).Nodup) (hPlace : p ≠ [])
    (h : (p, e) ∈ d.entries) : d.get? p = some e := by
  rw [get?, if_neg hPlace]
  cases hFind : d.entries.find? fun e => e.1 = p with
  | none => simpa using List.find?_eq_none.mp hFind (p, e) h
  | some found =>
    have hHere : found.1 = p := by simpa using List.find?_some hFind
    have hFound := List.mem_of_find?_eq_some hFind
    -- there is one entry at a place at most
    rw [List.inj_on_of_nodup_map hDistinct hFound h hHere]
    rfl

/-- What stands above an entry is a directory. -/
theorem WellFormed.ancestor (h : d.WellFormed) {names : List Name} (hNames : names ≠ [])
    (hEntry : d.get? (p ++ names) = some e) : d.get? p = some .dir := by
  induction names using List.reverseRecOn generalizing e with
  | nil => exact absurd rfl hNames
  | append_singleton front name ih =>
    rw [← List.append_assoc] at hEntry
    have hParent := h.parent (p ++ front) name e (mem_of_get? (by simp) hEntry)
    -- the parent is a directory; above it the induction goes on
    cases front with
    | nil => simpa using hParent
    | cons first rest => exact ih (by simp) hParent

theorem WellFormed.valid_of_get? (h : d.WellFormed) (hEntry : d.get? p = some e) :
    ∀ name ∈ p, Name.Valid name := by
  intro name hName
  have hPlace : p ≠ [] := List.ne_nil_of_mem hName
  exact h.valid p e (mem_of_get? hPlace hEntry) name hName

theorem mem_children {name : Name} (d : Disk) (p : Place) :
    (name, e) ∈ d.children p ↔ (p ++ [name], e) ∈ d.entries := by
  unfold children
  rw [List.mem_filterMap]
  constructor
  · rintro ⟨⟨q, f⟩, hMem, hEq⟩
    dsimp only at hEq
    split at hEq
    · next other hDrop =>
      split at hEq
      · next hPrefix =>
        obtain ⟨names, rfl⟩ := hPrefix
        rw [List.drop_left] at hDrop
        cases hEq
        exact hDrop ▸ hMem
      · cases hEq
    · cases hEq
  · intro hMem
    exact ⟨_, hMem, by simp⟩

theorem mem_below {names : List Name} (d : Disk) (p : Place) :
    (names, e) ∈ d.below p ↔ names ≠ [] ∧ (p ++ names, e) ∈ d.entries := by
  unfold below
  rw [List.mem_filterMap]
  constructor
  · rintro ⟨⟨q, f⟩, hMem, hEq⟩
    dsimp only at hEq
    split at hEq
    · next hBelow =>
      obtain ⟨⟨more, rfl⟩, hNe⟩ := hBelow
      rw [List.drop_left] at hEq
      cases hEq
      exact ⟨fun hNil => hNe (by simp [hNil]), hMem⟩
    · cases hEq
  · rintro ⟨hNames, hMem⟩
    exact ⟨_, hMem, by simp [hNames]⟩

/-- Below what is no directory, or an empty one, nothing stands. -/
theorem WellFormed.get?_below (h : d.WellFormed) {names : List Name} (hNames : names ≠ [])
    (hNothing : d.get? p = some .dir → d.children p = []) : d.get? (p ++ names) = none := by
  cases hEntry : d.get? (p ++ names) with
  | none => rfl
  | some e =>
    obtain ⟨first, rest, rfl⟩ := List.exists_cons_of_ne_nil hNames
    -- the first name below would be that of a child
    have hChild : ∃ f, d.get? (p ++ [first]) = some f := by
      cases rest with
      | nil => exact ⟨e, hEntry⟩
      | cons next more =>
        rw [List.append_cons] at hEntry
        exact ⟨.dir, h.ancestor (by simp) hEntry⟩
    obtain ⟨f, hChild⟩ := hChild
    have hMem := (mem_children d p).mpr (mem_of_get? (by simp) hChild)
    rw [hNothing (h.ancestor hNames hEntry)] at hMem
    cases hMem

/-! ## What operations do -/

theorem insert_perm (entries : List (Place × Entry)) (e : Place × Entry) :
    (insert entries e).Perm (e :: entries) := by
  unfold insert
  refine List.perm_middle.trans (List.Perm.cons e ?_)
  rw [List.takeWhile_append_dropWhile]

theorem mem_set : (q, f) ∈ (d.set p e).entries ↔
    q = p ∧ f = e ∨ (q ≠ p ∧ (q, f) ∈ d.entries) := by
  rw [set, (insert_perm _ _).mem_iff, List.mem_cons, erase, List.mem_filter, Prod.mk.injEq]
  simp [and_comm]

theorem mem_eraseTree : (q, f) ∈ (d.eraseTree p).entries ↔ (q, f) ∈ d.entries ∧ ¬ p <+: q := by
  simp [eraseTree]

theorem foldl_insert_perm (moved entries : List (Place × Entry)) :
    (moved.foldl insert entries).Perm (moved ++ entries) := by
  induction moved generalizing entries with
  | nil => exact .refl entries
  | cons e moved ih =>
    refine (ih (insert entries e)).trans ?_
    exact ((insert_perm entries e).append_left moved).trans List.perm_middle

theorem mem_moveTree {source target : Place} : (q, f) ∈ (d.moveTree source target).entries ↔
    (∃ names, q = target ++ names ∧ (source ++ names, f) ∈ d.entries) ∨
      ((q, f) ∈ d.entries ∧ ¬ source <+: q) := by
  unfold moveTree
  rw [(foldl_insert_perm _ _).mem_iff, List.mem_append, mem_eraseTree, List.mem_map]
  refine or_congr ⟨?_, ?_⟩ Iff.rfl
  · rintro ⟨⟨p, g⟩, hMem, hEq⟩
    obtain ⟨hEntry, hPrefix⟩ := List.mem_filter.mp hMem
    obtain ⟨names, rfl⟩ : source <+: p := by simpa using hPrefix
    rw [List.drop_left] at hEq
    cases hEq
    exact ⟨names, rfl, hEntry⟩
  · rintro ⟨names, rfl, hEntry⟩
    exact ⟨(source ++ names, f), List.mem_filter.mpr ⟨hEntry, by simp⟩, by simp⟩

/-! ## What stands where afterwards -/

/-- Places are known by the entries that stand there. -/
theorem get?_congr {d d' : Disk} (hDistinct : (d.entries.map Prod.fst).Nodup)
    (hDistinct' : (d'.entries.map Prod.fst).Nodup) (hp : p ≠ []) (hq : q ≠ [])
    (h : ∀ f, (q, f) ∈ d'.entries ↔ (p, f) ∈ d.entries) : d'.get? q = d.get? p := by
  apply Option.ext
  intro f
  constructor
  · exact fun hHere => get?_of_mem hDistinct hp ((h f).mp (mem_of_get? hq hHere))
  · exact fun hHere => get?_of_mem hDistinct' hq ((h f).mpr (mem_of_get? hp hHere))

theorem get?_eq_none (hq : q ≠ []) (h : ∀ f, (q, f) ∉ d.entries) : d.get? q = none := by
  cases hHere : d.get? q with
  | none => rfl
  | some f => exact absurd (mem_of_get? hq hHere) (h f)

/-! ### An entry is put -/

theorem distinct_set (h : (d.entries.map Prod.fst).Nodup) (p : Place) (e : Entry) :
    ((d.set p e).entries.map Prod.fst).Nodup := by
  rw [set, ((insert_perm _ _).map Prod.fst).nodup_iff, List.map_cons, List.nodup_cons]
  constructor
  · intro hMem
    obtain ⟨x, hEntry, hHere⟩ := List.mem_map.mp hMem
    have hElse : x.1 ≠ p := by simpa using (List.mem_filter.mp hEntry).2
    exact hElse hHere
  · exact h.sublist ((List.filter_sublist (l := d.entries)).map Prod.fst)

theorem get?_set (h : d.WellFormed) (hp : p ≠ []) :
    (d.set p e).get? q = if q = p then some e else d.get? q := by
  have hDistinct := distinct_set h.distinct p e
  split
  · next hHere =>
    subst hHere
    exact get?_of_mem hDistinct hp (mem_set.mpr (Or.inl ⟨rfl, rfl⟩))
  · next hElse =>
    by_cases hq : q = []
    · rw [hq]
      rfl
    · exact get?_congr h.distinct hDistinct hq hq fun f => by simp [mem_set, hElse]

theorem WellFormed.set (h : d.WellFormed) {dir : Place} {name : Name}
    (hDir : d.get? dir = some .dir) (hName : Name.Valid name)
    (hFree : d.get? (dir ++ [name]) ≠ some .dir) : (d.set (dir ++ [name]) e).WellFormed where
  distinct := distinct_set h.distinct _ _
  nonempty p f hMem := by
    rcases mem_set.mp hMem with ⟨rfl, -⟩ | ⟨-, hOld⟩
    · simp
    · exact h.nonempty p f hOld
  valid p f hMem := by
    rcases mem_set.mp hMem with ⟨rfl, -⟩ | ⟨-, hOld⟩
    · intro n hn
      rcases List.mem_append.mp hn with hn | hn
      · exact h.valid_of_get? hDir n hn
      · exact List.mem_singleton.mp hn ▸ hName
    · exact h.valid p f hOld
  parent p n f hMem := by
    -- the new entry stands in a directory, and replaced none
    rw [get?_set h (by simp)]
    rcases mem_set.mp hMem with ⟨hHere, -⟩ | ⟨-, hOld⟩
    · obtain ⟨rfl, -⟩ := List.append_inj' hHere rfl
      rw [if_neg (by simp), hDir]
    · have hParent := h.parent p n f hOld
      rw [if_neg, hParent]
      rintro rfl
      exact hFree hParent

/-- The entry that is put last stays. -/
theorem set_set (d : Disk) (p : Place) (e f : Entry) : (d.set p e).set p f = d.set p f := by
  have hErased : (d.set p e).erase p = d.erase p := by
    unfold set erase insert
    congr 1
    rw [List.filter_append, List.filter_cons_of_neg (by simp), ← List.filter_append,
      List.takeWhile_append_dropWhile, List.filter_filter]
    simp only [Bool.and_self]
  rw [set, hErased]
  rfl

theorem get?_set_here (d : Disk) (hp : p ≠ []) (e : Entry) : (d.set p e).get? p = some e := by
  have hErased : ((d.erase p).entries.takeWhile fun f => Place.before f.1 p).find?
      (fun f => f.1 = p) = none := by
    refine List.find?_eq_none.mpr fun f hMem => ?_
    simpa using (List.mem_filter.mp ((List.takeWhile_prefix _).subset hMem)).2
  rw [get?, if_neg hp, set, insert, List.find?_append, hErased]
  simp

/-! ### An entry is erased -/

theorem get?_erase (h : d.WellFormed) (hp : p ≠ []) :
    (d.erase p).get? q = if q = p then none else d.get? q := by
  have hDistinct : ((d.erase p).entries.map Prod.fst).Nodup :=
    h.distinct.sublist ((List.filter_sublist (l := d.entries)).map Prod.fst)
  split
  · next hHere =>
    subst hHere
    exact get?_eq_none hp fun f hMem => by simpa using (List.mem_filter.mp hMem).2
  · next hElse =>
    by_cases hq : q = []
    · rw [hq]
      rfl
    · exact get?_congr h.distinct hDistinct hq hq fun f => by simp [erase, hElse]

/-- What is no directory can go without anything below it. -/
theorem WellFormed.erase (h : d.WellFormed) (hp : p ≠ []) (hLeaf : d.get? p ≠ some .dir) :
    (d.erase p).WellFormed where
  distinct := h.distinct.sublist ((List.filter_sublist (l := d.entries)).map Prod.fst)
  nonempty q f hMem := h.nonempty q f (List.mem_filter.mp hMem).1
  valid q f hMem := h.valid q f (List.mem_filter.mp hMem).1
  parent q n f hMem := by
    have hParent := h.parent q n f (List.mem_filter.mp hMem).1
    rw [get?_erase h hp, if_neg, hParent]
    rintro rfl
    exact hLeaf hParent

/-! ### A tree is removed -/

theorem distinct_eraseTree (h : (d.entries.map Prod.fst).Nodup) (p : Place) :
    ((d.eraseTree p).entries.map Prod.fst).Nodup :=
  h.sublist ((List.filter_sublist (l := d.entries)).map Prod.fst)

theorem get?_eraseTree (h : d.WellFormed) (hp : p ≠ []) :
    (d.eraseTree p).get? q = if p <+: q then none else d.get? q := by
  split
  · next hBelow =>
    have hq : q ≠ [] := fun hNil => hp (List.prefix_nil.mp (hNil ▸ hBelow))
    exact get?_eq_none hq fun f hMem => (mem_eraseTree.mp hMem).2 hBelow
  · next hElse =>
    by_cases hq : q = []
    · rw [hq]
      rfl
    · exact get?_congr h.distinct (distinct_eraseTree h.distinct p) hq hq fun f => by
        simp [mem_eraseTree, hElse]

theorem WellFormed.eraseTree (h : d.WellFormed) (hp : p ≠ []) : (d.eraseTree p).WellFormed where
  distinct := distinct_eraseTree h.distinct p
  nonempty q f hMem := h.nonempty q f (mem_eraseTree.mp hMem).1
  valid q f hMem := h.valid q f (mem_eraseTree.mp hMem).1
  parent q n f hMem := by
    obtain ⟨hOld, hElse⟩ := mem_eraseTree.mp hMem
    -- with the parent the entry itself would have gone
    rw [get?_eraseTree h hp, if_neg fun hBelow => hElse (hBelow.trans (List.prefix_append q [n]))]
    exact h.parent q n f hOld

/-! ### A tree is moved -/

/-- Nothing stands at a place or below it. -/
def Vacant (d : Disk) (p : Place) : Prop :=
  ∀ names, d.get? (p ++ names) = none

theorem distinct_moveTree {source target : Place} (h : (d.entries.map Prod.fst).Nodup)
    (hVacant : ∀ names f, (target ++ names, f) ∉ d.entries) :
    ((d.moveTree source target).entries.map Prod.fst).Nodup := by
  unfold moveTree
  rw [((foldl_insert_perm _ _).map Prod.fst).nodup_iff, List.map_append, List.map_map,
    List.nodup_append]
  -- what is moved keeps apart, what stays does, and the target was free
  refine ⟨?_, distinct_eraseTree h source, ?_⟩
  · refine (List.Nodup.of_map Prod.fst h).filter _ |>.map_on ?_
    intro x hx y hy hEq
    obtain ⟨hxMem, hxBelow⟩ := List.mem_filter.mp hx
    obtain ⟨hyMem, hyBelow⟩ := List.mem_filter.mp hy
    refine List.inj_on_of_nodup_map h hxMem hyMem ?_
    obtain ⟨names, hNames⟩ : source <+: x.1 := by simpa using hxBelow
    obtain ⟨others, hOthers⟩ : source <+: y.1 := by simpa using hyBelow
    have hSame : target ++ x.1.drop source.length = target ++ y.1.drop source.length := hEq
    rw [← hNames, ← hOthers, List.drop_left, List.drop_left] at hSame
    rw [← hNames, ← hOthers, List.append_cancel_left hSame]
  · intro p hMoved q hStays hEq
    obtain ⟨x, -, rfl⟩ := List.mem_map.mp hMoved
    obtain ⟨y, hy, rfl⟩ := List.mem_map.mp hStays
    have hOld : (y.1, y.2) ∈ d.entries := (List.mem_filter.mp hy).1
    rw [← hEq] at hOld
    exact hVacant _ _ hOld

section Move

variable {source target : Place}

theorem Vacant.not_mem (h : d.Vacant p) (hDistinct : (d.entries.map Prod.fst).Nodup)
    (hp : p ≠ []) (names : List Name) (f : Entry) : (p ++ names, f) ∉ d.entries := by
  intro hMem
  have hHere := get?_of_mem hDistinct (by simp [hp]) hMem
  rw [h names] at hHere
  cases hHere

theorem get?_moveTree (h : d.WellFormed) (hSource : source ≠ []) (hTarget : target ≠ [])
    (hVacant : d.Vacant target) :
    (∀ names, (d.moveTree source target).get? (target ++ names) = d.get? (source ++ names)) ∧
      ∀ q, ¬ target <+: q → (d.moveTree source target).get? q =
        if source <+: q then none else d.get? q := by
  have hNone := hVacant.not_mem h.distinct hTarget
  have hDistinct : ((d.moveTree source target).entries.map Prod.fst).Nodup :=
    distinct_moveTree h.distinct hNone
  constructor
  · intro names
    refine get?_congr h.distinct hDistinct (by simp [hSource]) (by simp [hTarget]) fun f => ?_
    rw [mem_moveTree]
    constructor
    · rintro (⟨others, hEq, hMem⟩ | ⟨hMem, -⟩)
      · exact List.append_cancel_left hEq ▸ hMem
      · exact absurd hMem (hNone names f)
    · exact fun hMem => Or.inl ⟨names, rfl, hMem⟩
  · intro q hElse
    by_cases hq : q = []
    · subst hq
      rw [if_neg (by simpa using hSource)]
      rfl
    · split
      · next hBelow =>
        refine get?_eq_none hq fun f hMem => ?_
        rcases mem_moveTree.mp hMem with ⟨names, rfl, -⟩ | ⟨-, hNot⟩
        · exact hElse (List.prefix_append target names)
        · exact hNot hBelow
      · next hNot =>
        refine get?_congr h.distinct hDistinct hq hq fun f => ?_
        rw [mem_moveTree]
        constructor
        · rintro (⟨names, rfl, -⟩ | ⟨hMem, -⟩)
          · exact absurd (List.prefix_append target names) hElse
          · exact hMem
        · exact fun hMem => Or.inr ⟨hMem, hNot⟩

theorem WellFormed.moveTree (h : d.WellFormed) {dir : Place} {name : Name} (hSource : source ≠ [])
    (hDir : d.get? dir = some .dir) (hName : Name.Valid name) (hVacant : d.Vacant (dir ++ [name]))
    (hApart : ¬ source <+: dir ++ [name]) : (d.moveTree source (dir ++ [name])).WellFormed := by
  have hTarget : dir ++ [name] ≠ [] := by simp
  have hNone := hVacant.not_mem h.distinct hTarget
  obtain ⟨hMoved, hElse⟩ := get?_moveTree h hSource hTarget hVacant
  refine ⟨distinct_moveTree h.distinct hNone, ?_, ?_, ?_⟩
  · intro p f hMem
    rcases mem_moveTree.mp hMem with ⟨names, rfl, -⟩ | ⟨hOld, -⟩
    · simp
    · exact h.nonempty p f hOld
  · intro p f hMem n hn
    rcases mem_moveTree.mp hMem with ⟨names, rfl, hOld⟩ | ⟨hOld, -⟩
    · rcases List.mem_append.mp hn with hn | hn
      · rcases List.mem_append.mp hn with hn | hn
        · exact h.valid_of_get? hDir n hn
        · exact List.mem_singleton.mp hn ▸ hName
      · exact h.valid _ f hOld n (List.mem_append_right _ hn)
    · exact h.valid p f hOld n hn
  · intro p n f hMem
    rcases mem_moveTree.mp hMem with ⟨names, hEq, hOld⟩ | ⟨hOld, hNot⟩
    · rcases List.eq_nil_or_concat names with rfl | ⟨front, last, rfl⟩
      · obtain ⟨rfl, -⟩ := List.append_inj' (hEq.trans (List.append_nil _)) rfl
        rw [hElse p (fun hBelow => by simpa [Nat.not_succ_le_self] using hBelow.length_le),
          if_neg fun hBelow => hApart (hBelow.trans (List.prefix_append p [name])), hDir]
      · rw [List.concat_eq_append, ← List.append_assoc] at hEq hOld
        obtain ⟨rfl, -⟩ := List.append_inj' hEq rfl
        rw [hMoved front]
        exact h.parent (source ++ front) last f hOld
    · have hParent := h.parent p n f hOld
      rw [hElse p, if_neg fun hBelow => hNot (hBelow.trans (List.prefix_append p [n])), hParent]
      rintro ⟨names, rfl⟩
      rw [hVacant names] at hParent
      cases hParent

end Move

/-! ### An entry is renamed -/

/-- The disk after one entry took the place of another. -/
def renamed (d : Disk) (source target : Place) : Disk :=
  (d.erase target).moveTree source target

section Rename

variable {source target : Place}

/-- An entry may take a place where nothing stands, or nothing that others stand in. -/
theorem checkReplace_below (h : d.WellFormed) (hCheck : d.checkReplace source target = .ok ())
    (hSource : d.get? source = some e) {names : List Name} (hNames : names ≠ []) :
    d.get? (target ++ names) = none := by
  refine h.get?_below hNames fun hDir => ?_
  unfold checkReplace at hCheck
  rw [hSource, hDir] at hCheck
  cases e with
  | dir =>
    dsimp only at hCheck
    split at hCheck
    · assumption
    · cases hCheck
  | file contents | link target | socket | device => cases hCheck

/-- Erasing an entry that nothing stands in is erasing its tree. -/
theorem erase_eq_eraseTree (h : d.WellFormed)
    (hNothing : ∀ names, names ≠ [] → d.get? (p ++ names) = none) : d.erase p = d.eraseTree p := by
  unfold erase eraseTree
  congr 1
  -- an entry below the place would stand below nothing
  refine List.filter_congr fun x hx => ?_
  rw [decide_eq_decide]
  constructor
  · rintro hElse ⟨names, hEq⟩
    have hNames : names ≠ [] := fun hNil => hElse (by simpa [hNil] using hEq.symm)
    have hHere := get?_of_mem h.distinct (h.nonempty x.1 x.2 hx) hx
    rw [← hEq, hNothing names hNames] at hHere
    cases hHere
  · intro hNot hEq
    exact hNot (hEq ▸ List.prefix_rfl)

/-- What a renaming needs: something at the source, a directory for the target, neither of them in
the other, and nothing in the way. -/
structure MayRename (d : Disk) (source dir : Place) (name : Name) : Prop where
  present : ∃ e, d.get? source = some e
  below : source ≠ []
  directory : d.get? dir = some .dir
  valid : Name.Valid name
  apart : ¬ source <+: dir ++ [name] ∧ ¬ dir ++ [name] <+: source
  free : d.checkReplace source (dir ++ [name]) = .ok ()

variable {dir : Place} {name : Name}

theorem MayRename.cleared (hMay : d.MayRename source dir name) (h : d.WellFormed) :
    d.erase (dir ++ [name]) = d.eraseTree (dir ++ [name]) := by
  obtain ⟨e, hSource⟩ := hMay.present
  exact erase_eq_eraseTree h fun names hNames => checkReplace_below h hMay.free hSource hNames

theorem WellFormed.vacant_eraseTree (h : d.WellFormed) (dir : Place) (name : Name) :
    (d.eraseTree (dir ++ [name])).Vacant (dir ++ [name]) := by
  intro names
  rw [get?_eraseTree h (by simp), if_pos (List.prefix_append _ names)]

theorem WellFormed.get?_renamed (h : d.WellFormed) (hMay : d.MayRename source dir name) :
    (∀ names, (d.renamed source (dir ++ [name])).get? (dir ++ [name] ++ names) =
        d.get? (source ++ names)) ∧
      ∀ q, ¬ dir ++ [name] <+: q → (d.renamed source (dir ++ [name])).get? q =
        if source <+: q then none else d.get? q := by
  have hTarget : dir ++ [name] ≠ [] := by simp
  unfold Disk.renamed
  rw [hMay.cleared h]
  -- the target is cleared first, which leaves the source alone
  obtain ⟨hMoved, hElse⟩ := get?_moveTree (h.eraseTree hTarget) hMay.below hTarget
    (h.vacant_eraseTree dir name)
  constructor
  · intro names
    rw [hMoved names, get?_eraseTree h hTarget, if_neg]
    intro hBelow
    -- the source would be in the target, or the target in the source
    rcases List.prefix_or_prefix_of_prefix hBelow (List.prefix_append source names) with hIn | hIn
    · exact hMay.apart.2 hIn
    · exact hMay.apart.1 hIn
  · intro q hNot
    rw [hElse q hNot, get?_eraseTree h hTarget, if_neg hNot]

theorem WellFormed.renamed (h : d.WellFormed) (hMay : d.MayRename source dir name) :
    (d.renamed source (dir ++ [name])).WellFormed := by
  have hTarget : dir ++ [name] ≠ [] := by simp
  have hDir : (d.eraseTree (dir ++ [name])).get? dir = some .dir := by
    rw [get?_eraseTree h hTarget, if_neg, hMay.directory]
    exact fun hBelow => by simpa [Nat.not_succ_le_self] using hBelow.length_le
  unfold Disk.renamed
  rw [hMay.cleared h]
  exact (h.eraseTree hTarget).moveTree hMay.below hDir hMay.valid (h.vacant_eraseTree dir name)
    hMay.apart.1

/-- **A file renamed** within its directory: it stands under the new name, and nothing else has
changed. -/
theorem WellFormed.renamed_file (h : d.WellFormed) {other : Name} {contents : ByteString}
    (hDir : d.get? dir = some .dir) (hName : Name.Valid name) (hNe : other ≠ name)
    (hFile : d.get? (dir ++ [other]) = some (.file contents))
    (hFree : d.get? (dir ++ [name]) ≠ some .dir) :
    (d.renamed (dir ++ [other]) (dir ++ [name])).WellFormed ∧
      ∀ q, (d.renamed (dir ++ [other]) (dir ++ [name])).get? q =
        if q = dir ++ [name] then some (.file contents)
        else if q = dir ++ [other] then none else d.get? q := by
  -- places of one length are not below each other
  have hBeside {first second : Name} (hNot : first ≠ second) :
      ¬ dir ++ [first] <+: dir ++ [second] := by
    intro hBelow
    have hSame := hBelow.eq_of_length (by simp)
    exact hNot (List.singleton_inj.mp (List.append_cancel_left hSame))
  have hCheck : d.checkReplace (dir ++ [other]) (dir ++ [name]) = .ok () := by
    unfold checkReplace
    rw [hFile]
    cases hTarget : d.get? (dir ++ [name]) with
    | none => rfl
    | some e =>
      cases e with
      | dir => exact absurd hTarget hFree
      | file contents | link target | socket | device => rfl
  have hMay : d.MayRename (dir ++ [other]) dir name :=
    ⟨⟨_, hFile⟩, by simp, hDir, hName, ⟨hBeside hNe, hBeside hNe.symm⟩, hCheck⟩
  have hLeaf {names : List Name} (hNames : names ≠ []) : d.get? (dir ++ [other] ++ names) = none :=
    h.get?_below hNames fun hFound => by rw [hFile] at hFound; cases hFound
  obtain ⟨hMoved, hElse⟩ := h.get?_renamed hMay
  refine ⟨h.renamed hMay, fun q => ?_⟩
  by_cases hBelow : dir ++ [name] <+: q
  · obtain ⟨names, rfl⟩ := hBelow
    by_cases hNames : names = []
    · rw [hMoved, hNames, List.append_nil, List.append_nil, if_pos rfl, hFile]
    -- nothing stands below a file, nor below what it may replace
    have hLonger {last : Name} : dir ++ [name] ++ names ≠ dir ++ [last] := by
      intro hSame
      have hLength := congrArg List.length hSame
      simp only [List.length_append, List.length_singleton] at hLength
      exact hNames (List.eq_nil_of_length_eq_zero (by omega))
    rw [hMoved, hLeaf hNames, if_neg hLonger, if_neg hLonger,
      checkReplace_below h hCheck hFile hNames]
  · have hAway : q ≠ dir ++ [name] := fun hSame => hBelow (hSame ▸ List.prefix_rfl)
    rw [hElse q hBelow, if_neg hAway]
    by_cases hUnder : dir ++ [other] <+: q
    · obtain ⟨names, rfl⟩ := hUnder
      by_cases hNames : names = []
      · rw [hNames, List.append_nil, if_pos List.prefix_rfl, if_pos rfl]
      · rw [if_pos (List.prefix_append _ _), hLeaf hNames, ite_self]
    · have hGone : q ≠ dir ++ [other] := fun hSame => hUnder (hSame ▸ List.prefix_rfl)
      rw [if_neg hUnder, if_neg hGone]

end Rename

end Disk

end TreeWatch
