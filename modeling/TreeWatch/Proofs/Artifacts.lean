import TreeWatch.Coalescer.Basic
import TreeWatch.Proofs.CounterNames

/-!
# The engine's own files

Whoever bumps a counter writes two files: the counter and the sibling it is replaced through. The
notifications about them come back to the loop that caused them. Three names have to agree for
that to be the end of it: the one that the counter is found or made under, the one that is made from
it for the sibling, and the one that is passed over when an event comes in.

Main results:
  * `isCounterArtifact_counterPath`, `isCounterArtifact_temporaryPath`: both files are passed over,
    whatever the root, its spelling and the letters the counter is found under
  * `Coalescer.handleEvent_own`: an event of such files changes nothing
  * `own_files_never_trigger`: so events of such files may come at any time among others
-/

namespace TreeWatch

/-! ## Names -/

/-- The name of a counter in lower case is the usual one. -/
theorem lower_of_isCounterName {name : String} (h : isCounterName name = true) :
    name.toList.map Char.toLower = counterFileName.toList := by
  unfold isCounterName sameIgnoringCase at h
  exact (eq_of_beq h).trans rfl

/-- A path that ends in the name of a counter is passed over. -/
theorem isCounterArtifact_of_counterName {p : Path} {name : String}
    (hEnd : p.fileName? = some name) (hName : isCounterName name = true) :
    isCounterArtifact p = true := by
  unfold isCounterArtifact
  rw [hEnd]
  dsimp only
  -- in lower case there is only one name left
  rw [lower_of_isCounterName hName]
  decide

/-- So is one that ends in such a name with the suffix behind it. -/
theorem isCounterArtifact_of_temporaryName {p : Path} {name : String}
    (hEnd : p.fileName? = some (name ++ temporarySuffix)) (hName : isCounterName name = true) :
    isCounterArtifact p = true := by
  unfold isCounterArtifact
  rw [hEnd]
  dsimp only
  rw [String.toList_append, List.map_append, lower_of_isCounterName hName]
  decide

/-- **The counter** of a root is passed over. -/
theorem isCounterArtifact_counterPath (d : Disk) (root : Path) :
    isCounterArtifact (counterPath d root) = true := by
  obtain ⟨name, hName, hPath⟩ := exists_counterName d root
  rw [hPath]
  exact isCounterArtifact_of_counterName (Path.fileName?_join root (valid_counterName hName).isName)
    hName

/-- **The sibling** it is replaced through is passed over. -/
theorem isCounterArtifact_temporaryPath (d : Disk) (root : Path) :
    isCounterArtifact (temporaryPath (counterPath d root)) = true := by
  obtain ⟨name, hName, hPath⟩ := exists_counterName d root
  obtain ⟨parent, -, hTemporary⟩ := temporaryPath_join root (valid_counterName hName).isName
  rw [hPath, hTemporary]
  exact isCounterArtifact_of_temporaryName
    (Path.fileName?_join parent (valid_temporaryName hName).isName) hName

/-! ## Events -/

/-- Whether all paths of an event that are text name counters or their siblings. -/
def Event.isOwn (event : Event) : Bool :=
  event.paths.all fun
    | .text s => isCounterArtifact ⟨s⟩
    | .raw _ _ => true

/-- The changes of such an event are changes of such files, whatever its kind. -/
theorem classifyFrom_own {d : Disk} {kind : EventKind} :
    ∀ (paths : List ByteString) (index : Nat), (⟨kind, paths⟩ : Event).isOwn = true →
      ∀ change ∈ (classifyFrom d kind index paths).1, isCounterArtifact change.path = true
  | [], _, _, _, hChange => (List.not_mem_nil hChange).elim
  | .raw _ _ :: rest, index, h, change, hChange => by
    -- a path that is no text stands for no change
    have hRest : (⟨kind, rest⟩ : Event).isOwn = true := h
    exact classifyFrom_own rest (index + 1) hRest change hChange
  | .text s :: rest, index, h, change, hChange => by
    obtain ⟨hHere, hRest⟩ : isCounterArtifact ⟨s⟩ = true ∧ (⟨kind, rest⟩ : Event).isOwn = true := by
      simpa [Event.isOwn] using h
    rcases List.mem_cons.mp hChange with rfl | hLater
    · exact hHere
    · exact classifyFrom_own rest (index + 1) hRest change hLater

/-- An event, with the disk and the time at which it is handled. -/
structure Arrival where
  disk : Disk
  now : Nat
  event : Event

namespace Coalescer

variable {c : Coalescer} {d : Disk} {now : Nat}

/-- The file of a change is looked at before anything else is. -/
theorem handleChange_own {change : Change} (h : isCounterArtifact change.path = true) :
    (c.handleChange d now change).1 = c := by
  unfold handleChange
  rw [if_pos h]
  split <;> rfl

theorem handleChanges_own {changes : List Change}
    (h : ∀ change ∈ changes, isCounterArtifact change.path = true) :
    (c.handleChanges d now changes).1 = c := by
  induction changes with
  | nil => rfl
  | cons change rest ih =>
    have hFirst : (c.handleChange d now change).1 = c :=
      handleChange_own (h change List.mem_cons_self)
    show ((c.handleChange d now change).1.handleChanges d now rest).1 = c
    rw [hFirst]
    exact ih fun other hOther => h other (List.mem_cons_of_mem _ hOther)

/-- **An event of own files** changes nothing. -/
theorem handleEvent_own {event : Event} (h : event.isOwn = true) :
    (c.handleEvent d now event).1 = c :=
  handleChanges_own (classifyFrom_own _ _ h)

/-- The coalescer after events that came one after another. -/
def handleAll (c : Coalescer) (arrivals : List Arrival) : Coalescer :=
  arrivals.foldl (fun c arrival => (c.handleEvent arrival.disk arrival.now arrival.event).1) c

/-- Events of own files may be left out of any sequence. -/
theorem handleAll_filter (arrivals : List Arrival) : ∀ c : Coalescer,
    c.handleAll (arrivals.filter fun arrival => !arrival.event.isOwn) = c.handleAll arrivals := by
  -- by induction on the events, for any coalescer: the next event may have changed it
  induction arrivals with
  | nil => exact fun _ => rfl
  | cons arrival rest ih =>
    intro c
    cases hOwn : arrival.event.isOwn with
    | false =>
      rw [List.filter_cons_of_pos (by simp [hOwn])]
      exact ih _
    | true =>
      have hFirst : (c.handleEvent arrival.disk arrival.now arrival.event).1 = c :=
        handleEvent_own hOwn
      rw [List.filter_cons_of_neg (by simp [hOwn]), ih]
      show c.handleAll rest =
        (c.handleEvent arrival.disk arrival.now arrival.event).1.handleAll rest
      rw [hFirst]

end Coalescer

/-! ## Main result -/

/--
**The engine never triggers itself.**

* Whatever the disk is like and however a root is spelled, its counter and the sibling that is
  replaced through are files that are passed over.
* An event of such files, of whatever kind and with whatever other paths that are no text, leaves
  subscriptions, engine, dirty roots and deadline as they were.
* Two sequences of events that differ only in events of such files, however many and wherever they
  stand, leave the same behind.
-/
theorem own_files_never_trigger :
    (∀ (d : Disk) (root : Path), isCounterArtifact (counterPath d root) = true ∧
      isCounterArtifact (temporaryPath (counterPath d root)) = true) ∧
    (∀ (c : Coalescer) (d : Disk) (now : Nat) (event : Event), event.isOwn = true →
      (c.handleEvent d now event).1 = c) ∧
    ∀ (c : Coalescer) (arrivals others : List Arrival),
      (arrivals.filter fun arrival => !arrival.event.isOwn) =
        (others.filter fun arrival => !arrival.event.isOwn) →
      c.handleAll arrivals = c.handleAll others := by
  refine ⟨fun d root => ?_, fun c d now event hOwn => Coalescer.handleEvent_own hOwn,
    fun c arrivals others hSame => ?_⟩
  · exact ⟨isCounterArtifact_counterPath d root, isCounterArtifact_temporaryPath d root⟩
  · rw [← Coalescer.handleAll_filter arrivals, hSame, Coalescer.handleAll_filter others]

/-- A write in a root is marked at its time, and what the bump of the root causes afterwards changes
nothing of that: the sibling appears, next to a path that is no text, and is renamed over a counter
in capitals. -/
theorem sample_bump_goes_unnoticed :
    let c : Coalescer := .new {} [⟨"r/"⟩] 10
    let write : Arrival := ⟨⟨[], []⟩, 3, ⟨.contents, [.text "r/f"]⟩⟩
    let created : Arrival := ⟨⟨[], []⟩, 7, ⟨.create, [.text "r/GPT.INI.tmp", .ofBytes [0xFF]]⟩⟩
    let renamed : Arrival :=
      ⟨⟨[], []⟩, 7, ⟨.rename .both, [.text "r/GPT.INI.tmp", .text "r/GPT.INI"]⟩⟩
    (created.event.isOwn = true ∧
      ((c.handleAll [write]).handleEvent created.disk created.now created.event).1 =
        c.handleAll [write]) ∧
    ([created, write, created, renamed].filter fun arrival => !arrival.event.isOwn) =
      ([write].filter fun arrival => !arrival.event.isOwn) ∧
    c.handleAll [created, write, created, renamed] = c.handleAll [write] ∧
    (c.handleAll [write]).dirty = [⟨"r/"⟩] ∧ (c.handleAll [write]).deadline = some 13 := by
  intro c write created renamed
  have hOwn : created.event.isOwn = true := by decide +kernel
  have hSame : ([created, write, created, renamed].filter fun arrival => !arrival.event.isOwn) =
      ([write].filter fun arrival => !arrival.event.isOwn) := by rfl
  exact ⟨⟨hOwn, own_files_never_trigger.2.1 _ _ _ _ hOwn⟩, hSame,
    own_files_never_trigger.2.2 c _ _ hSame, by decide +kernel, by decide +kernel⟩

end TreeWatch
