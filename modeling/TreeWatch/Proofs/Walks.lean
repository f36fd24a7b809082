import TreeWatch.Proofs.Registry
import TreeWatch.Proofs.Routes

/-!
# Walks over trees

A walk from a directory meets everything below it, each entry under the path of the directory and
the names that lead to it, so what it offers to the registrar are exactly the directories and
regular files below under names that are text (`Disk.Watched`). Wherever a walk starts, it offers
nothing that does not lie below its start.

Main results:
  * `Disk.WellFormed.walk_offers`: what a walk from a directory offers
  * `Disk.WellFormed.walk_below`: what any walk offers lies below its start
-/

namespace TreeWatch

/-! ## Paths the system takes -/

namespace Path

theorem noNul_append {s t : String} : 0 ∉ (ByteString.text (s ++ t)).bytes ↔
    0 ∉ (ByteString.text s).bytes ∧ 0 ∉ (ByteString.text t).bytes := by
  simp only [ByteString.bytes, Utf8.encode, String.toList_append, List.flatMap_append,
    List.mem_append, not_or]

theorem noNul_join {p : Path} {name : String} (h : 0 ∉ p.native.bytes)
    (hName : 0 ∉ (ByteString.text name).bytes) : 0 ∉ (p.join ⟨name⟩).native.bytes := by
  unfold join
  split
  · exact hName
  · split
    · exact noNul_append.mpr ⟨h, hName⟩
    · exact noNul_append.mpr ⟨noNul_append.mpr ⟨h, by decide⟩, hName⟩

/-- A path below another is longer. -/
theorem size_join {p : Path} {name : String} (hName : (⟨name⟩ : Path).isAbsolute = false) :
    p.native.size + name.utf8ByteSize ≤ (p.join ⟨name⟩).native.size := by
  unfold join
  rw [if_neg (by simp [hName])]
  split
  · show _ ≤ (p.spelling ++ name).utf8ByteSize
    rw [String.utf8ByteSize_append]
    exact Nat.le_refl _
  · show _ ≤ (p.spelling ++ "/" ++ name).utf8ByteSize
    rw [String.utf8ByteSize_append, String.utf8ByteSize_append]
    exact Nat.add_le_add_right (Nat.le_add_right _ _) _

/-- A path that leads somewhere is not that of standard input. -/
theorem Leads.not_dash {p : Path} {names : List String} (h : p.Leads names) :
    ¬ p.SameAs ⟨"-"⟩ := by
  intro hDash
  have hName : (⟨"-"⟩ : Path).components = [.name "-"] := by decide
  have hSame : p.components = (⟨"-"⟩ : Path).components := hDash
  rw [h, hName] at hSame
  cases hSame

theorem noNul_under {p : Path} (h : 0 ∉ p.native.bytes) :
    ∀ {names : List String}, (∀ name ∈ names, 0 ∉ (ByteString.text name).bytes) →
      0 ∉ (p.under names).native.bytes
  | [], _ => h
  | name :: _, hNames =>
    noNul_under (noNul_join h (hNames name List.mem_cons_self)) fun other hOther =>
      hNames other (List.mem_cons_of_mem _ hOther)

end Path

namespace Disk

variable {d : Disk} {p q : Path} {names : List String}

/-- There is a directory or a regular file under these names. -/
def Watched (d : Disk) (names : List String) : Prop :=
  ∃ e, d.get? (names.map .text) = some e ∧ e.isWatched = true

/-! ## Walks -/

/-- The visits of what lies below a place, under a path. -/
def visitsBelow (d : Disk) (place : Place) (p : Path) : List Visit :=
  (d.below place).map fun (names, entry) => ⟨names.foldl ByteString.child p.native, entry⟩

/-- The system takes the paths of all directories and regular files at a place and below, under a
path. -/
def InReach (d : Disk) (place : Place) (p : Path) : Prop :=
  ∀ inner e, d.get? (place ++ inner) = some e → e.isWatched = true →
    (inner.foldl ByteString.child p.native).size < maxPath

theorem InReach.under {texts : List String} (h : d.InReach (names.map .text) p) :
    d.InReach ((names ++ texts).map .text) (p.under texts) := by
  intro inner e hEntry hWatched
  rw [List.map_append, List.append_assoc] at hEntry
  have hShort := h _ e hEntry hWatched
  rwa [List.foldl_append, ByteString.foldl_child_text] at hShort

theorem InReach.short {place : Place} {e : Entry} (h : d.InReach place p)
    (hEntry : d.get? place = some e) (hWatched : e.isWatched = true) : p.native.size < maxPath :=
  h [] e (by rwa [List.append_nil]) hWatched

/-- However early a walk ends, it met the entries up to there. -/
theorem walkThrough_front : ∀ visits : List Visit, (walkThrough visits).visits <+: visits
  | [] => List.prefix_rfl
  | visit :: rest => by
    unfold walkThrough
    split
    · exact List.cons_prefix_cons.mpr ⟨rfl, List.nil_prefix⟩
    · exact List.cons_prefix_cons.mpr ⟨rfl, walkThrough_front rest⟩

/-- Where all directories can be opened nothing ends a walk early. -/
theorem walkThrough_short : ∀ {visits : List Visit},
    (∀ visit ∈ visits, visit.entry.isDir = true → visit.path.size < maxPath) →
      walkThrough visits = { visits }
  | [], _ => rfl
  | visit :: rest, h => by
    have hOpens : ¬ (visit.entry.isDir = true ∧ maxPath ≤ visit.path.size) := fun hLong =>
      Nat.not_le.mpr (h visit List.mem_cons_self hLong.1) hLong.2
    have hRest : walkThrough rest = { visits := rest } :=
      walkThrough_short fun other hOther => h other (List.mem_cons_of_mem _ hOther)
    unfold walkThrough
    rw [if_neg hOpens, hRest]

theorem WellFormed.treeVisits_dir (h : d.WellFormed) (hLeads : p.Leads names) (hUsable : p.Usable)
    (hDir : d.get? (names.map .text) = some .dir) :
    treeVisits d p = .ok (⟨p.native, .dir⟩ :: d.visitsBelow (names.map .text) p) := by
  have hStat : d.linkStat p.native = .ok .dir := by
    unfold linkStat
    rw [h.find_dir hLeads hUsable hDir (by simp)]
    show Except.ok ((d.get? _).getD .dir) = _
    rw [hDir]
    rfl
  unfold treeVisits
  rw [hStat]
  show (do
    let place ← d.find .target p.native
    return ((⟨p.native, .dir⟩ : Visit) :: d.visitsBelow place p)) = _
  rw [h.find_dir hLeads hUsable hDir (by simp)]
  rfl

theorem WellFormed.walk_dir (h : d.WellFormed) (hLeads : p.Leads names) (hUsable : p.Usable)
    (hReach : d.InReach (names.map .text) p) (hDir : d.get? (names.map .text) = some .dir) :
    walk d p = { visits := ⟨p.native, .dir⟩ :: d.visitsBelow (names.map .text) p } := by
  unfold walk
  rw [if_neg hLeads.not_dash, h.treeVisits_dir hLeads hUsable hDir]
  refine walkThrough_short fun visit hVisit hOpened => ?_
  rcases List.mem_cons.mp hVisit with rfl | hBelow
  · exact hUsable.short
  · obtain ⟨⟨inner, e⟩, hInner, rfl⟩ := List.mem_map.mp hBelow
    obtain ⟨hNames, hEntry⟩ := (mem_below d _).mp hInner
    -- a directory further down is something to watch, and so in reach
    have hHere := get?_of_mem h.distinct (by simp [hNames]) hEntry
    exact hReach inner e hHere (by simp [Entry.isWatched, hOpened])

/-- What is offered by the visits below a place: what can be watched there, under text. -/
theorem WellFormed.offers_below (h : d.WellFormed) (place : Place) (p q : Path) :
    (∃ visit ∈ d.visitsBelow place p, visit.Offers q) ↔
      ∃ texts : List String, texts ≠ [] ∧ q = p.under texts ∧ (∀ name ∈ texts, IsName name) ∧
        ∃ e, d.get? (place ++ texts.map .text) = some e ∧ e.isWatched = true := by
  constructor
  · rintro ⟨visit, hVisit, hWatched, hPath⟩
    obtain ⟨⟨names, e⟩, hBelow, rfl⟩ := List.mem_map.mp hVisit
    obtain ⟨hNames, hEntry⟩ := (mem_below d place).mp hBelow
    -- the path is text, so the names are
    obtain ⟨texts, rfl, hUnder⟩ := ByteString.text_of_foldl_child hPath
    have hTexts : texts ≠ [] := fun hNil => hNames (by simp [hNil])
    have hHere := get?_of_mem h.distinct (by simp [hTexts]) hEntry
    refine ⟨texts, hTexts, hUnder, fun name hName => ?_, e, hHere, hWatched⟩
    exact (h.valid_of_get? hHere (.text name)
      (List.mem_append_right _ (List.mem_map_of_mem hName))).isName
  · rintro ⟨texts, hTexts, rfl, -, e, hHere, hWatched⟩
    have hEntry := mem_of_get? (by simp [hTexts]) hHere
    have hBelow := (mem_below d place).mpr ⟨by simp [hTexts], hEntry⟩
    exact ⟨_, List.mem_map_of_mem hBelow, hWatched, ByteString.foldl_child_text p texts⟩

/-- **A walk from a directory** offers what can be watched there and below. -/
theorem WellFormed.walk_offers (h : d.WellFormed) (hLeads : p.Leads names) (hUsable : p.Usable)
    (hReach : d.InReach (names.map .text) p) (hDir : d.get? (names.map .text) = some .dir) :
    (walk d p).fault? = none ∧ ∀ q others, q.Leads others →
      ((∃ visit ∈ (walk d p).visits, ∃ path, visit.Offers path ∧ path.SameAs q) ↔
        names <+: others ∧ d.Watched others) := by
  rw [h.walk_dir hLeads hUsable hReach hDir]
  refine ⟨rfl, fun q others hOthers => ?_⟩
  constructor
  · rintro ⟨visit, hVisit, path, hOffers, hSame⟩
    rcases List.mem_cons.mp hVisit with rfl | hVisit
    · have hPath : p = path := by
        cases p
        cases path
        exact congrArg Path.mk (ByteString.text.inj hOffers.2)
      have hNames : names = others := (hLeads.sameAs_iff hOthers).mp (hPath ▸ hSame)
      exact hNames ▸ ⟨List.prefix_rfl, .dir, hDir, rfl⟩
    · obtain ⟨texts, -, rfl, hNames, e, hHere, hWatched⟩ :=
        (h.offers_below _ p path).mp ⟨visit, hVisit, hOffers⟩
      have hEq : names ++ texts = others := ((hLeads.under hNames).sameAs_iff hOthers).mp hSame
      rw [← List.map_append, hEq] at hHere
      exact ⟨⟨texts, hEq⟩, e, hHere, hWatched⟩
  · rintro ⟨⟨texts, rfl⟩, e, hHere, hWatched⟩
    rw [List.map_append] at hHere
    -- the directory itself, or something in it
    by_cases hTexts : texts = []
    · subst hTexts
      refine ⟨_, List.mem_cons_self, p, ⟨rfl, rfl⟩, ?_⟩
      exact (hLeads.sameAs_iff hOthers).mpr (List.append_nil names).symm
    · have hNames : ∀ name ∈ texts, IsName name := fun name hName =>
        (h.valid_of_get? hHere (.text name)
          (List.mem_append_right _ (List.mem_map_of_mem hName))).isName
      -- the names are those of entries, and the path leads where they say
      obtain ⟨visit, hVisit, hOffers⟩ := (h.offers_below _ p (p.under texts)).mpr
        ⟨texts, hTexts, rfl, hNames, e, hHere, hWatched⟩
      exact ⟨visit, List.mem_cons_of_mem _ hVisit, _, hOffers,
        ((hLeads.under hNames).sameAs_iff hOthers).mpr rfl⟩

theorem rootVisit_path {e : Entry} {first : Visit} {deeper : Bool}
    (h : rootVisit d p e = .ok (first, deeper)) : first.path = p.native := by
  unfold rootVisit at h
  split at h
  · cases hStat : d.stat p.native with
    | error fault =>
      rw [hStat] at h
      cases h
    | ok target =>
      rw [hStat] at h
      cases target <;> cases h <;> rfl
  · cases h
    rfl

/-- A tree that can be listed is its root, and what lies below the place where the root leads if
that is gone into. -/
theorem treeVisits_eq_ok {visits : List Visit} (h : treeVisits d p = .ok visits) :
    ∃ e first deeper, d.linkStat p.native = .ok e ∧ rootVisit d p e = .ok (first, deeper) ∧
      (deeper = false ∧ visits = [first] ∨ deeper = true ∧
        ∃ place, d.find .target p.native = .ok place ∧
          visits = first :: d.visitsBelow place p) := by
  unfold treeVisits at h
  cases hStat : d.linkStat p.native with
  | error fault =>
    rw [hStat] at h
    cases h
  | ok e =>
    rw [hStat] at h
    cases hRoot : rootVisit d p e with
    | error fault =>
      simp only [hRoot, bind, Except.bind] at h
      cases h
    | ok found =>
      obtain ⟨first, deeper⟩ := found
      simp only [hRoot, bind, Except.bind] at h
      refine ⟨e, first, deeper, rfl, hRoot, ?_⟩
      cases deeper with
      | false =>
        cases h
        exact Or.inl ⟨rfl, rfl⟩
      | true =>
        cases hFind : d.find .target p.native with
        | error fault =>
          simp only [hFind, if_true] at h
          cases h
        | ok place =>
          simp only [hFind, if_true] at h
          cases h
          exact Or.inr ⟨rfl, place, rfl, rfl⟩

theorem treeVisits_cases {visits : List Visit} (h : treeVisits d p = .ok visits) :
    ∀ visit ∈ visits, visit.path = p.native ∨ ∃ place, visit ∈ d.visitsBelow place p := by
  intro visit hVisit
  obtain ⟨e, first, deeper, -, hRoot, ⟨-, rfl⟩ | ⟨-, place, -, rfl⟩⟩ := treeVisits_eq_ok h
  · rw [List.mem_singleton.mp hVisit]
    exact Or.inl (rootVisit_path hRoot)
  · rcases List.mem_cons.mp hVisit with rfl | hBelow
    · exact Or.inl (rootVisit_path hRoot)
    · exact Or.inr ⟨place, hBelow⟩

/-- A walk lists its start, and what lies below some directory. -/
theorem walk_cases {visit : Visit} (h : visit ∈ (walk d p).visits) :
    visit.path = p.native ∨ ∃ place, visit ∈ d.visitsBelow place p := by
  unfold walk at h
  split at h
  · exact (List.not_mem_nil h).elim
  · split at h
    · exact (List.not_mem_nil h).elim
    · next hVisits => exact treeVisits_cases hVisits visit ((walkThrough_front _).subset h)

/-- **Any walk** offers only what lies below its start. -/
theorem WellFormed.walk_below (h : d.WellFormed) (hLeads : p.Leads names) {visit : Visit}
    (hVisit : visit ∈ (walk d p).visits) (hOffers : visit.Offers q) :
    ∃ texts, q.Leads (names ++ texts) := by
  rcases walk_cases hVisit with hStart | ⟨place, hBelow⟩
  · have hPath : q = p := by
      cases p
      cases q
      exact congrArg Path.mk (ByteString.text.inj (hOffers.2.symm.trans hStart))
    exact ⟨[], by rwa [hPath, List.append_nil]⟩
  · obtain ⟨texts, -, rfl, hNames, -⟩ := (h.offers_below place p q).mp ⟨visit, hBelow, hOffers⟩
    exact ⟨texts, hLeads.under hNames⟩

end Disk

end TreeWatch
