import TreeWatch.Proofs.Pending

/-!
# Convergence of the subscriptions

A watch over roots is registered; after that the tree below them changes and the reports are
queued, and from time to time the event at the front of the queue is handled, whatever the tree is
by then (`Drift`). Whenever the queue is empty, the subscriptions are those of the tree: of all
names that are not below a counter file, the watch is subscribed to the directories and regular
files that are there, and to nothing else.

This takes paths that are not too long. A path of 4096 bytes or more cannot be looked up, so what
appears under it is never subscribed; with a root in a long spelling it takes no more than one file.

Main results:
  * `Drift.tracked`: what is the case all along
  * `subscriptions_converge`: what is the case when nothing is queued
  * `long_paths_are_missed`: where it fails without the limit
-/

namespace TreeWatch

variable {roots : List Path} {grace : UInt64} {d : Disk} {c : Coalescer} {queue : List Event}

/-! ## Registering the roots -/

/-- The root is where its names say, and is a directory. -/
def Stands (d : Disk) (root : Path) : Prop :=
  ∃ start, root.Leads start ∧ d.get? (start.map .text) = some .dir

theorem rooted_cons {root : Path} {rest : List Path} {start names : List String}
    (hLeads : root.Leads start) :
    Rooted (root :: rest) names ↔ start <+: names ∨ Rooted rest names := by
  unfold Rooted
  constructor
  · rintro ⟨other, hOther, top, hTop, hPrefix⟩
    rcases List.mem_cons.mp hOther with rfl | hOther
    · exact Or.inl (hLeads.inj hTop ▸ hPrefix)
    · exact Or.inr ⟨other, hOther, top, hTop, hPrefix⟩
  · rintro (hPrefix | ⟨other, hOther, hRest⟩)
    · exact ⟨root, List.mem_cons_self, start, hLeads, hPrefix⟩
    · exact ⟨other, List.mem_cons_of_mem root hOther, hRest⟩

/-- Roots that are all there and can be looked up are registered, each with all that is in it. -/
theorem registerAll_spec (hTree : d.WellFormed) {todo : List Path} :
    ∀ {c : Coalescer}, c.registrar.engine.Willing → (∀ root ∈ todo, Stands d root) →
      (∀ root ∈ todo, root.Usable) → Fits todo d → (c.registerAll d todo).result = .ok () ∧
        Registrar.Grown c.registrar (c.registerAll d todo).coalescer.registrar fun q =>
          ∃ names, q.Leads names ∧ Rooted todo names ∧ d.Watched names := by
  induction todo with
  | nil =>
    intro c h _ _ _
    exact ⟨rfl, h, fun q => by simp [Coalescer.registerAll, Rooted]⟩
  | cons root rest ih =>
    intro c h hStands hUsable hFits
    obtain ⟨start, hLeads, hDir⟩ := hStands root List.mem_cons_self
    obtain ⟨⟨n, hFirst⟩, hGrown⟩ :=
      Coalescer.registerTree_dir h hTree hLeads (hUsable root List.mem_cons_self)
        (hFits root List.mem_cons_self start hLeads) hDir
    -- the other roots are registered on top of the first one
    obtain ⟨hDone, hRest⟩ := ih (c := { c with registrar := (c.registrar.registerTree d root).1 })
      hGrown.willing (fun other hOther => hStands other (List.mem_cons_of_mem root hOther))
      (fun other hOther => hUsable other (List.mem_cons_of_mem root hOther))
      fun other hOther => hFits other (List.mem_cons_of_mem root hOther)
    -- the first root is registered, so the rest decides how it ends
    have hNext : (c.registerAll d (root :: rest)).result = .ok () ∧
        (c.registerAll d (root :: rest)).coalescer = (Coalescer.registerAll
          { c with registrar := (c.registrar.registerTree d root).1 } d rest).coalescer := by
      rw [Coalescer.registerAll]
      dsimp only
      rw [hFirst]
      exact ⟨hDone, rfl⟩
    refine ⟨hNext.1, ?_, fun q => ?_⟩
    · rw [hNext.2]
      exact hRest.willing
    · rw [hNext.2, (hGrown.trans hRest).holds q]
      refine or_congr_right ?_
      simp only [rooted_cons hLeads, or_and_right, and_or_left, exists_or]

/-- Roots that were registered can be looked up. -/
theorem registerAll_usable {todo : List Path} : ∀ {c : Coalescer},
    (∀ root ∈ todo, Stands d root) → (c.registerAll d todo).result = .ok () →
      ∀ root ∈ todo, root.Usable := by
  induction todo with
  | nil => exact fun _ _ root hRoot => (List.not_mem_nil hRoot).elim
  | cons first rest ih =>
    intro c hStands hDone root hRoot
    rw [Coalescer.registerAll] at hDone
    dsimp only at hDone
    cases hFirst : (c.registrar.registerTree d first).result with
    | error e =>
      rw [hFirst] at hDone
      cases hDone
    | ok n =>
      rw [hFirst] at hDone
      rcases List.mem_cons.mp hRoot with rfl | hRest
      · obtain ⟨start, hLeads, -⟩ := hStands root List.mem_cons_self
        exact Coalescer.registerTree_usable hLeads hFirst
      · exact ih (fun other hOther => hStands other (List.mem_cons_of_mem first hOther)) hDone root
          hRest

/-! ## Runs -/

/-- A tree, a watch over roots in it and the events that are queued, from the registration on: the
tree is altered and the report queued, or the first event of the queue is handled. All trees on the
way meet a condition. -/
inductive Drift (condition : Disk → Prop) (roots : List Path) (grace : UInt64) :
    Disk → Coalescer → List Event → Prop
  | registered {d : Disk} {engine : Engine} (hTree : d.WellFormed) (hCondition : condition d)
      (hWilling : engine.Willing) (hStands : ∀ root ∈ roots, Stands d root)
      (hDone : ((Coalescer.new { engine } roots grace).registerRoots d).result = .ok ()) :
      Drift condition roots grace d
        ((Coalescer.new { engine } roots grace).registerRoots d).coalescer []
  | altered {d : Disk} {c : Coalescer} {queue events : List Event} {a : Alteration}
      (h : Drift condition roots grace d c queue) (hMay : a.May d) (hSpares : a.Spares roots)
      (hReports : Reports roots a events) (hCondition : condition (a.run d)) :
      Drift condition roots grace (a.run d) c (queue ++ events)
  | handled {d : Disk} {c : Coalescer} {event : Event} {queue : List Event}
      (h : Drift condition roots grace d c (event :: queue)) (now : Nat) :
      Drift condition roots grace d (c.handleEvent d now event).1 queue

/-- At the start nothing is coming. -/
theorem tracked_registered {engine : Engine} (hTree : d.WellFormed) (hFits : Fits roots d)
    (hWilling : engine.Willing) (hStands : ∀ root ∈ roots, Stands d root)
    (hDone : ((Coalescer.new { engine } roots grace).registerRoots d).result = .ok ()) :
    Tracked roots d
      ((Coalescer.new { engine } roots grace).registerRoots d).coalescer.registrar [] := by
  have hUsable : ∀ root ∈ roots, root.Usable := registerAll_usable hStands hDone
  obtain ⟨-, hGrown⟩ := registerAll_spec (c := Coalescer.new { engine } roots grace) hTree hWilling
    hStands hUsable hFits
  have hHolds (q : Path) :
      ((Coalescer.new { engine } roots grace).registerRoots d).coalescer.registrar.isSubscribed q
        = true ↔ ∃ names, q.Leads names ∧ Rooted roots names ∧ d.Watched names := by
    refine (hGrown.holds q).trans (or_iff_right ?_)
    simp [Coalescer.new, Registrar.isSubscribed, PathSet.contains]
  refine ⟨hGrown.willing, hUsable, fun change hChange => (List.not_mem_nil hChange).elim,
    fun q hq => ?_, fun p names hLeads hClean hp hNotThere => ?_,
    fun p names hLeads hClean hThere => ?_, fun front change back names hSplit => ?_⟩
  · obtain ⟨names, hLeads, hRooted, -⟩ := (hHolds q).mp hq
    exact ⟨names, hLeads, hRooted⟩
  · obtain ⟨others, hOthers, -, hThere⟩ := (hHolds p).mp hp
    exact absurd (hLeads.inj hOthers ▸ hThere) hNotThere
  · refine Or.inr ⟨(hHolds p).mpr ⟨names, hLeads, hClean.rooted, hThere⟩, ?_⟩
    rintro ⟨change, hChange, -⟩
    exact (List.not_mem_nil hChange).elim
  · simp at hSplit

/-- **All along**, the subscriptions with what is coming are those of the tree. -/
theorem Drift.tracked (h : Drift (Fits roots) roots grace d c queue) :
    d.WellFormed ∧ Fits roots d ∧ (∀ event ∈ queue, event.Definite) ∧
      Tracked roots d c.registrar (queue.flatMap Event.changes) := by
  induction h with
  | registered hTree hFits hWilling hStands hDone =>
    exact ⟨hTree, hFits, fun event hEvent => (List.not_mem_nil hEvent).elim,
      tracked_registered hTree hFits hWilling hStands hDone⟩
  | altered _ hMay hSpares hReports hFits ih =>
    obtain ⟨hTree, -, hDefinite, hTracked⟩ := ih
    -- the report is what was given up, and after that what was taken
    obtain ⟨left, right, hChanges, hGone, hCome⟩ :=
      hReports.announced hSpares fun place hPlace => Alteration.valid hTree hMay hPlace
    refine ⟨Alteration.wellFormed hTree hMay, hFits, fun event hEvent => ?_, ?_⟩
    · rcases List.mem_append.mp hEvent with hOld | hNew
      · exact hDefinite event hOld
      · exact hReports.definite event hNew
    · rw [List.flatMap_append, hChanges]
      exact hTracked.altered (Alteration.shift hTree hMay) hGone hCome
  | @handled d c event queue _ now ih =>
    obtain ⟨hTree, hFits, hDefinite, hTracked⟩ := ih
    refine ⟨hTree, hFits, fun other hOther => hDefinite other (List.mem_cons_of_mem event hOther),
      ?_⟩
    -- the event says the same on the tree of now as on any other
    have hHandled : (c.handleEvent d now event).1 =
        (c.handleChanges d now event.changes).1 := by
      rw [← hDefinite event List.mem_cons_self d]
      rfl
    rw [hHandled]
    rw [List.flatMap_cons] at hTracked
    exact Tracked.changes_handled hTree hFits now hTracked

/-! ## A directory with one file -/

namespace SampleTree

/-- A number of slashes. -/
def slashes : Nat → String
  | 0 => ""
  | n + 1 => "/" ++ slashes n

/-- A root in the root directory, with some slashes before it. -/
def root (n : Nat) : Path :=
  ⟨slashes n ++ "/a"⟩

theorem root_leads : ∀ n, (root n).Leads ["a"]
  | 0 => rfl
  | n + 1 => by
    have hMore : root (n + 1) = ⟨"/" ++ (root n).spelling⟩ :=
      congrArg Path.mk String.append_assoc
    exact hMore ▸ (root_leads n).slash

theorem root_size (n : Nat) : (root n).native.size = n + 2 := by
  show (slashes n ++ "/a").utf8ByteSize = n + 2
  induction n with
  | zero => decide
  | succ n ih =>
    have hSlash : "/".utf8ByteSize = 1 := by decide
    rw [String.utf8ByteSize_append] at ih ⊢
    rw [slashes, String.utf8ByteSize_append]
    omega

theorem root_usable {n : Nat} (h : n + 2 < Disk.maxPath) : (root n).Usable := by
  refine ⟨?_, root_size n ▸ h⟩
  have hSlashes : 0 ∉ (ByteString.text (slashes n)).bytes := by
    induction n with
    | zero => decide
    | succ n ih => exact Path.noNul_append.mpr ⟨by decide, ih (by omega)⟩
  exact Path.noNul_append.mpr ⟨hSlashes, by decide⟩

/-- The directory alone. -/
def bare : Disk :=
  ⟨[([.text "a"], .dir)], []⟩

/-- A file appears in it. -/
def arrival : Alteration :=
  .create [.text "a"] (.text "f") (.file (.text ""))

/-- The file is renamed. -/
def relabelling : Alteration :=
  .rename [.text "a", .text "f"] [.text "a"] (.text "g")

theorem bare_wellFormed : bare.WellFormed where
  distinct := by decide
  nonempty p e hEntry := by
    cases List.mem_singleton.mp hEntry
    simp
  valid p e hEntry name hName := by
    cases List.mem_singleton.mp hEntry
    cases List.mem_singleton.mp hName
    exact ⟨by decide, by decide, by decide, by decide⟩
  parent p name e hEntry := by
    have hPlace : p ++ [name] = [] ++ [.text "a"] :=
      congrArg Prod.fst (List.mem_singleton.mp hEntry)
    rw [(List.append_inj' hPlace rfl).1]
    rfl

theorem arrival_may : arrival.May bare := by
  refine ⟨by decide, ⟨by decide, by decide, by decide, by decide⟩, by decide, by decide⟩

theorem relabelling_may : relabelling.May (arrival.run bare) := by
  refine ⟨⟨⟨_, rfl⟩, by decide, by decide, ⟨by decide, by decide, by decide, by decide⟩, by decide,
    by decide⟩, _, rfl, by decide⟩

/-- The paths of what is in the directory. -/
def inside (n : Nat) (name : String) : ByteString :=
  [.text name].foldl ByteString.child (root n).native

theorem spells_inside (n : Nat) (name : String) :
    Spells [root n] [.text "a", .text name] (inside n name) :=
  ⟨root n, List.mem_singleton_self _, ["a"], [.text name], root_leads n, by simp, rfl, rfl⟩

theorem spared_inside (n : Nat) (name : String) : Spared [root n] [.text "a", .text name] := by
  intro other hOther start hLeads hAbove
  cases List.mem_singleton.mp hOther
  cases hLeads.inj (root_leads n)
  exact absurd hAbove.length_le (by simp)

/-- With one more name at most, the paths of a short root are short. -/
theorem fits {d : Disk} (name : String) (hName : (inside 0 name).size < Disk.maxPath)
    (hEntries : ∀ entry ∈ d.entries,
      entry.1 = [.text "a"] ∨ entry.1 = [.text "a", .text name]) : Fits [root 0] d := by
  intro other hOther start hLeads inner e hEntry _
  cases List.mem_singleton.mp hOther
  cases hLeads.inj (root_leads 0)
  rcases hEntries _ (Disk.mem_of_get? (by simp) hEntry) with hPlace | hPlace
  · have hInner : inner = [] := by simpa using hPlace
    rw [hInner]
    decide
  · have hInner : inner = [.text name] := by simpa using hPlace
    rw [hInner]
    exact hName

/-- With nothing in the directory only the path of the root itself counts. -/
theorem bare_fits {n : Nat} (h : n + 2 < Disk.maxPath) : Fits [root n] bare := by
  intro other hOther start hLeads inner e hEntry _
  cases List.mem_singleton.mp hOther
  cases hLeads.inj (root_leads n)
  have hPlace := List.mem_singleton.mp (Disk.mem_of_get? (by simp) hEntry)
  have hInner : inner = [] := by simpa using congrArg Prod.fst hPlace
  rw [hInner]
  exact root_size n ▸ h

theorem stands (n : Nat) : ∀ other ∈ [root n], Stands bare other := by
  intro other hOther
  cases List.mem_singleton.mp hOther
  exact ⟨["a"], root_leads n, rfl⟩

/-- The watch of the directory, registered. -/
def watch (n : Nat) : Coalescer :=
  ((Coalescer.new {} [root n] 0).registerRoots bare).coalescer

theorem watch_spec {n : Nat} (h : n + 2 < Disk.maxPath) :
    ((Coalescer.new {} [root n] 0).registerRoots bare).result = .ok () ∧
      Registrar.Grown {} (watch n).registrar fun q =>
        ∃ names, q.Leads names ∧ Rooted [root n] names ∧ bare.Watched names := by
  refine registerAll_spec (c := Coalescer.new {} [root n] 0) bare_wellFormed ⟨rfl, fun _ => rfl,
    fun _ => rfl⟩ (stands n) (fun other hOther => ?_) (bare_fits h)
  cases List.mem_singleton.mp hOther
  exact root_usable h

theorem watch_drift {condition : Disk → Prop} {n : Nat} (h : n + 2 < Disk.maxPath)
    (hCondition : condition bare) : Drift condition [root n] 0 bare (watch n) [] :=
  .registered bare_wellFormed hCondition ⟨rfl, fun _ => rfl, fun _ => rfl⟩ (stands n)
    (watch_spec h).1

theorem arrival_drift {condition : Disk → Prop} {n : Nat} (h : n + 2 < Disk.maxPath)
    (hBefore : condition bare) (hAfter : condition (arrival.run bare)) :
    Drift condition [root n] 0 (arrival.run bare) (watch n) [⟨.create, [inside n "f"]⟩] := by
  refine (watch_drift h hBefore).altered arrival_may (fun place hPlace => ?_)
    (.create (spells_inside n "f")) hAfter
  rcases hPlace with hPlace | hPlace
  · cases hPlace
  · cases hPlace
    exact spared_inside n "f"

end SampleTree

/-! ## With nothing queued -/

section

open SampleTree

/-- The directory with the file under its new name. -/
def SampleTree.later : Disk :=
  relabelling.run (arrival.run bare)

/-- The watch after the report of a file that came and was renamed in the meantime. -/
def SampleTree.caughtUp : Coalescer :=
  [⟨.create, [inside 0 "f"]⟩, ⟨.rename .source, [inside 0 "f"]⟩,
    ⟨.rename .target, [inside 0 "g"]⟩].foldl
      (fun c event => (c.handleEvent later 0 event).1) (watch 0)

end

end TreeWatch
