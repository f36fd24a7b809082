import TreeWatch.Proofs.Subscriptions

/-!
# Dropping what lies below a path

The registrar finds what lies below a path by going through its set from where the path belongs, for
as long as the members lie below it. That comes to the same as looking at every member, because in
the order of components nothing else stands among them: not a sibling whose name goes on where the
path ends, which would stand there in the order of texts.

Main results:
  * `Engine.requests_unsubscribeAll`: what the engine is asked to drop
  * `removal_is_filtering`: what goes and what stays
-/

namespace TreeWatch

namespace Engine

variable {e : Engine}

theorem requests_unsubscribe {path : String} (h : (e.unsubscribe path).1.crash = none) :
    e.crash = none ∧ (e.unsubscribe path).1.requests = .unsubscribe path :: e.requests := by
  unfold unsubscribe at h ⊢
  dsimp only at h ⊢
  split at h
  · next hCrash =>
    rw [h] at hCrash
    cases hCrash
  · next hCrash =>
    rw [if_neg hCrash]
    refine ⟨by simpa using hCrash, ?_⟩
    split <;> rfl

/-- An engine that survives it was asked to drop every path, in order. -/
theorem requests_unsubscribeAll (paths : List Path) : ∀ {e : Engine},
    (paths.foldl (fun engine q => (engine.unsubscribe q.spelling).1) e).crash = none →
      e.crash = none ∧
        (paths.foldl (fun engine q => (engine.unsubscribe q.spelling).1) e).requests =
          (paths.map fun q => .unsubscribe q.spelling).reverse ++ e.requests := by
  -- by induction on the paths; the log has the latest request first
  induction paths with
  | nil => exact fun h => ⟨h, rfl⟩
  | cons path rest ih =>
    intro e h
    obtain ⟨hNext, hRest⟩ := ih h
    obtain ⟨hFirst, hRequest⟩ := requests_unsubscribe hNext
    refine ⟨hFirst, ?_⟩
    rw [List.foldl_cons, hRest, hRequest, List.map_cons, List.reverse_cons, List.append_assoc]
    rfl

end Engine

/-- Members of a set are spelled apart, since their components differ. -/
theorem PathSet.spellings_nodup (s : PathSet) : (s.toList.map Path.spelling).Nodup := by
  refine List.pairwise_map.mpr (s.ordered.imp fun {p q} hBelow hSpelling => ?_)
  have hSame : p = q := congrArg Path.mk hSpelling
  rw [hSame] at hBelow
  exact List.lt_irrefl _ hBelow

/-- A registrar that is in step has its members under the spellings that were granted. -/
theorem Registrar.InStep.held {r : Registrar} {q : Path} (h : r.InStep)
    (hMember : q ∈ r.subscribed.toList) : q.spelling ∈ heldAfter r.engine.requests := by
  rw [← Engine.Tracks.held h, (Engine.Tracks.exact h).mem_iff]
  exact List.mem_map_of_mem hMember

/-- **Dropping a path** drops what lies below it, by components, and nothing else: whatever set the
registrar has, however the path is spelled, and whether it is in the set or not.
* The run of members that the path starts is the set filtered.
* The others stay, in order, and the answer is how many do not.
* Unless it crashes over that, the engine is asked to drop each of those once, under the spelling
  that the set has for it. For a registrar that came about by calls, that is the spelling that the
  engine granted. -/
theorem removal_is_filtering (r : Registrar) (p : Path) :
    let gone := r.subscribed.toList.filter fun q => q.startsWith p
    r.subscribed.runFrom p = gone ∧
      (r.unregister p).1.subscribed.toList =
        r.subscribed.toList.filter (fun q => !q.startsWith p) ∧
      (r.unregister p).2 = gone.length ∧
      ((r.unregister p).1.engine.crash = none → (r.unregister p).1.engine.requests =
        (gone.map fun q => .unsubscribe q.spelling).reverse ++ r.engine.requests) ∧
      (gone.map Path.spelling).Nodup ∧
      ∀ calls answers, Registrar.takeAll {} calls = (r, answers) →
        ∀ q ∈ gone, q.spelling ∈ heldAfter r.engine.requests := by
  intro gone
  have hRun : r.subscribed.runFrom p = gone := r.subscribed.runFrom_eq p
  have hGone : gone.Sublist r.subscribed.toList := List.filter_sublist
  -- the run that the scan finds is the set filtered; all else is about that run
  refine ⟨hRun, r.subscribed.cut_eq p, congrArg List.length hRun, fun hAlive => ?_, ?_, ?_⟩
  · rw [← hRun]
    exact (Engine.requests_unsubscribeAll _ hAlive).2
  · exact r.subscribed.spellings_nodup.sublist (hGone.map _)
  · intro calls answers hCalls q hq
    obtain ⟨hInStep, -⟩ := Registrar.inStep_new.takeAll calls
    rw [hCalls] at hInStep
    exact hInStep.held (hGone.subset hq)

/-- The requests for a file in a directory, three siblings that share a textual prefix with the
directory, and the directory, under odd spellings. -/
def siblingCalls : List Registrar.Call :=
  [⟨"/a/pb/z"⟩, ⟨"/a//p-b"⟩, ⟨"/a/p//f"⟩, ⟨"/a/p.txt"⟩, ⟨"/a/./p/"⟩].map fun path =>
    ⟨.subscribe path, fun _ => false, fun _ => false⟩

/-- What the registrar is after `siblingCalls`. -/
def siblings : Registrar :=
  (Registrar.takeAll {} siblingCalls).1

/-- The directory and the file go, the siblings stay. -/
theorem siblings_stay :
    (siblings.unregister ⟨"/a/p/."⟩).1.engine.crash = none ∧
      (siblings.unregister ⟨"/a/p/."⟩).1.subscribed.toList =
        [⟨"/a//p-b"⟩, ⟨"/a/p.txt"⟩, ⟨"/a/pb/z"⟩] ∧
      (siblings.unregister ⟨"/a/p/."⟩).2 = 2 ∧
      (siblings.unregister ⟨"/a/p/."⟩).1.engine.requests =
        [.unsubscribe "/a/p//f", .unsubscribe "/a/./p/"] ++ siblings.engine.requests ∧
      ∀ q ∈ siblings.subscribed.toList.filter (fun q => q.startsWith ⟨"/a/p/."⟩),
        q.spelling ∈ heldAfter siblings.engine.requests := by
  have hAlive : (siblings.unregister ⟨"/a/p/."⟩).1.engine.crash = none := by decide +kernel
  have hMembers : siblings.subscribed.toList =
      [⟨"/a/./p/"⟩, ⟨"/a/p//f"⟩, ⟨"/a//p-b"⟩, ⟨"/a/p.txt"⟩, ⟨"/a/pb/z"⟩] := by decide +kernel
  obtain ⟨-, hStay, hCount, hRequests, -, hHeld⟩ := removal_is_filtering siblings ⟨"/a/p/."⟩
  have hCalls : Registrar.takeAll {} siblingCalls =
      (siblings, (Registrar.takeAll {} siblingCalls).2) := by
    rw [siblings]
  refine ⟨hAlive, ?_, ?_, ?_, hHeld siblingCalls _ hCalls⟩
  · rw [hStay, hMembers]
    decide +kernel
  · rw [hCount, hMembers]
    decide +kernel
  · rw [hRequests hAlive, hMembers]
    refine congrArg (· ++ siblings.engine.requests) ?_
    decide +kernel

end TreeWatch
