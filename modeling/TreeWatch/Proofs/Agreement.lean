import TreeWatch.Proofs.Replacement

/-!
# Replacements side by side

A replacement goes the same way on two file systems if each of its primitive steps does. What that
takes is collected in `SideBySide`: what relates the file systems at each stage, and that the steps
keep it. The two can be a volume and its disk, or two of a kind that are alike in one directory.

Main results:
  * `SideBySide.replaceFile`: the replacements end with the same result, and related
-/

namespace TreeWatch

/-! ## Attempts that agree -/

/-- Two attempts end in the same way: with results that belong together, or with the same fault. -/
inductive Agree {α β : Type} (R : α → β → Prop) : Except Fault α → Except Fault β → Prop where
  | ok {a : α} {b : β} (h : R a b) : Agree R (.ok a) (.ok b)
  | error (fault : Fault) : Agree R (.error fault) (.error fault)

theorem Agree.imp {α β : Type} {R S : α → β → Prop} {x : Except Fault α} {y : Except Fault β}
    (h : Agree R x y) (hImp : ∀ a b, R a b → S a b) : Agree S x y := by
  cases h with
  | ok hRelated => exact .ok (hImp _ _ hRelated)
  | error fault => exact .error fault

theorem Agree.exists_ok {α β : Type} {R : α → β → Prop} {x : Except Fault α} {y : Except Fault β}
    (h : Agree R x y) {a : α} (hOk : x = .ok a) : ∃ b, y = .ok b ∧ R a b := by
  cases h with
  | @ok a' b hRelated =>
    cases hOk
    exact ⟨b, rfl, hRelated⟩
  | error fault => cases hOk

/-- Attempts agree that agree with others that do. -/
theorem Agree.both {α β γ δ : Type} {R : α → γ → Prop} {S : β → δ → Prop} {T : γ → δ → Prop}
    {x : Except Fault α} {y : Except Fault β} {x' : Except Fault γ} {y' : Except Fault δ}
    (h : Agree R x x') (h' : Agree S y y') (hBetween : Agree T x' y') :
    Agree (fun a b => ∃ a' b', R a a' ∧ S b b' ∧ T a' b') x y := by
  cases hBetween with
  | @ok a' b' hRelated =>
    cases h with
    | @ok a _ hLeft =>
      cases h' with
      | @ok b _ hRight => exact .ok ⟨a', b', hLeft, hRight, hRelated⟩
  | error fault =>
    cases h
    cases h'
    exact .error fault

/-- What goes wrong by itself goes wrong in both. -/
theorem Agree.guard {α β : Type} {R : α → β → Prop} {x : Except Fault α} {y : Except Fault β}
    (h : Agree R x y) (hazard : Hazard) (step : Primitive) :
    Agree R (hazard.guard step x) (hazard.guard step y) := by
  unfold Hazard.guard
  cases hazard.fails step with
  | some fault => exact .error fault
  | none => exact h

/-- What goes wrong with a write is the same beside itself. -/
theorem Hazard.writes_self (h : Hazard) : h.fails .write = h.fails .write ∧ h.written = h.written :=
  ⟨rfl, rfl⟩

/-! ## Two file systems -/

/-- How two file systems are related while a file is replaced on both. -/
structure SideBySide (σ τ : Type) [FileSystem σ] [FileSystem τ] (h h' : Hazard)
    (temporary path : Path) where
  begun : σ → τ → Prop
  /-- The sibling is open, at the same place in both. -/
  opened : σ → τ → Place → Prop
  /-- A step failed, and the sibling is to be removed. -/
  abandoned : σ → τ → Prop
  failed : σ → τ → Prop
  replaced : σ → τ → Prop
  writes : h'.fails .write = h.fails .write ∧ h'.written = h.written
  create : ∀ {x y}, begun x y → Agree (fun a b => b.2 = a.2 ∧ opened a.1 b.1 a.2)
    (h.guard .create (FileSystem.create x temporary.native))
    (h'.guard .create (FileSystem.create y temporary.native))
  write : ∀ {x y place} contents, opened x y place →
    opened (FileSystem.write x place contents) (FileSystem.write y place contents) place
  sync : ∀ {x y place}, opened x y place →
    h'.guard .sync (FileSystem.sync y place) = h.guard .sync (FileSystem.sync x place)
  rename : ∀ {x y place}, opened x y place → FileSystem.sync x place = .ok () → Agree replaced
    (h.guard .rename (FileSystem.rename x temporary.native path.native))
    (h'.guard .rename (FileSystem.rename y temporary.native path.native))
  remove : ∀ {x y}, abandoned x y → Agree failed
    (h.guard .remove (FileSystem.remove x temporary.native))
    (h'.guard .remove (FileSystem.remove y temporary.native))
  uncreated : ∀ {x y}, begun x y → abandoned x y
  closed : ∀ {x y place}, opened x y place → abandoned x y
  unremoved : ∀ {x y}, abandoned x y → failed x y

namespace SideBySide

variable {σ τ : Type} [FileSystem σ] [FileSystem τ] {h h' : Hazard} {temporary path : Path}
  {x : σ} {y : τ} {place : Place}

/-- The replacements ended alike. -/
inductive Ended (s : SideBySide σ τ h h' temporary path) : Replaced σ → Replaced τ → Prop where
  | replaced {x : σ} {y : τ} (h : s.replaced x y) : Ended s ⟨x, .ok (), none⟩ ⟨y, .ok (), none⟩
  | failed {x : σ} {y : τ} (fault : Fault) (left : Option Fault) (h : s.failed x y) :
      Ended s ⟨x, .error fault, left⟩ ⟨y, .error fault, left⟩

variable (s : SideBySide σ τ h h' temporary path)

theorem abandonReplace (hLeft : s.abandoned x y) (fault : Fault) :
    s.Ended (TreeWatch.abandonReplace h x temporary fault)
      (TreeWatch.abandonReplace h' y temporary fault) := by
  have hAgree := s.remove hLeft
  unfold TreeWatch.abandonReplace
  generalize h.guard .remove (FileSystem.remove x temporary.native) = left at hAgree ⊢
  generalize h'.guard .remove (FileSystem.remove y temporary.native) = right at hAgree ⊢
  cases hAgree with
  | ok hRemoved => exact .failed fault none hRemoved
  | error left => exact .failed fault _ (s.unremoved hLeft)

theorem finishRename (hOpen : s.opened x y place) (hSync : FileSystem.sync x place = .ok ()) :
    s.Ended (TreeWatch.finishRename h temporary path x)
      (TreeWatch.finishRename h' temporary path y) := by
  have hAgree := s.rename hOpen hSync
  unfold TreeWatch.finishRename
  generalize h.guard .rename (FileSystem.rename x temporary.native path.native) = left at hAgree ⊢
  generalize h'.guard .rename (FileSystem.rename y temporary.native path.native) = right
    at hAgree ⊢
  cases hAgree with
  | ok hRenamed => exact .replaced hRenamed
  | error fault => exact s.abandonReplace (s.closed hOpen) fault

theorem finishSync (hOpen : s.opened x y place) :
    s.Ended (TreeWatch.finishSync h temporary path x place)
      (TreeWatch.finishSync h' temporary path y place) := by
  unfold TreeWatch.finishSync
  rw [s.sync hOpen]
  cases hSync : h.guard .sync (FileSystem.sync x place) with
  | error fault => exact s.abandonReplace (s.closed hOpen) fault
  | ok done => exact s.finishRename hOpen (Hazard.action_of_guard hSync)

theorem finishWrite (contents : String) (hOpen : s.opened x y place) :
    s.Ended (TreeWatch.finishWrite h temporary path contents x place)
      (TreeWatch.finishWrite h' temporary path contents y place) := by
  unfold TreeWatch.finishWrite
  rw [s.writes.1, s.writes.2]
  cases h.fails .write with
  | some fault => exact s.abandonReplace (s.closed (s.write _ hOpen)) fault
  | none => exact s.finishSync (s.write _ hOpen)

/-- **Replacements side by side** end with the same result. -/
theorem replaceFile (contents : String) (hBegun : s.begun x y) :
    s.Ended (TreeWatch.replaceFile h x temporary path contents)
      (TreeWatch.replaceFile h' y temporary path contents) := by
  have hAgree := s.create hBegun
  rw [replaceFile_eq, replaceFile_eq]
  generalize h.guard .create (FileSystem.create x temporary.native) = left at hAgree ⊢
  generalize h'.guard .create (FileSystem.create y temporary.native) = right at hAgree ⊢
  cases hAgree with
  | error fault => exact s.abandonReplace (s.uncreated hBegun) fault
  | @ok created other hOpened =>
    obtain ⟨x', place⟩ := created
    obtain ⟨y', place'⟩ := other
    obtain ⟨rfl, hOpen⟩ := hOpened
    exact s.finishWrite contents hOpen

end SideBySide

end TreeWatch
