import TreeWatch.CommandLine.Run
import TreeWatch.Proofs.RoundTrip
import TreeWatch.Proofs.Validation

/-!
# The effective configuration

A run goes by what a file says, with what was given beside it in its stead, and without repeats
among the directories; it goes by nothing if that cannot be used. A configuration that was found
good in this way is its own effective configuration. It is shown as text that reads back as the
same configuration, so whoever saves what a check shows and runs by that file alone runs by the
same configuration.

Main results:
  * `Config.effective_eq_ok`: when there is an effective configuration, and which
  * `Config.Usable.effective`: a good configuration in a file is the effective one
  * `effective_configuration`: when there is one, which, and that a check of what a check has shown
    shows the same
-/

namespace TreeWatch

/-- The disk has all directories that another has, under the same paths. -/
def Disk.Keeps (d d' : Disk) : Prop :=
  ∀ p : Path, d.isDir p = true → d'.isDir p = true

theorem Disk.Keeps.refl (d : Disk) : d.Keeps d :=
  fun _ => id

namespace Config

variable {d d' : Disk} {file : Option Path} {path : Path} {o : Overrides} {c loaded : Config}

/-- What a run starts out from: the configuration in a file that can be read, or the default one if
no file is given. -/
def Loads (d : Disk) (file : Option Path) (c : Config) : Prop :=
  match file with
  | none => c = {}
  | some path => ∃ text, d.readText path = .ok text ∧ read text = .ok c

theorem load_eq_ok : load d path = .ok c ↔ Loads d (some path) c := by
  unfold load Loads
  cases hText : d.readText path with
  | error fault => simp [hText, Except.mapError, bind, Except.bind]
  | ok text =>
    cases hRead : read text with
    | error refusal => simp [hText, hRead, Except.mapError, bind, Except.bind]
    | ok found => simp [hText, hRead, Except.mapError, bind, Except.bind]

/-- A configuration that a run can go by: there is a directory to watch, none comes twice, all of
them are there, and the grace period is not zero. -/
structure Usable (d : Disk) (c : Config) : Prop where
  nonempty : c.watch.dirs ≠ []
  apart : c.watch.dirs.Pairwise fun p q => ¬ p.SameAs q
  dirs : ∀ dir ∈ c.watch.dirs, d.isDir dir = true
  grace : c.watch.gracePeriodMs ≠ 0

theorem validate_eq_ok : c.validate d = .ok () ↔
    validateDirs d c.watch.dirs = .ok () ∧ c.watch.gracePeriodMs ≠ 0 := by
  show (validateDirs d c.watch.dirs >>= fun _ =>
    if c.watch.gracePeriodMs = 0 then Except.error _ else Except.ok ()) = _ ↔ _
  cases validateDirs d c.watch.dirs with
  | error why => simp [bind, Except.bind]
  | ok u => by_cases hGrace : c.watch.gracePeriodMs = 0 <;> simp [bind, Except.bind, hGrace]

/-- What counts is usable if it passes, since it has no repeats. -/
theorem usable_override : (loaded.override o).Usable d ↔
    (loaded.override o).validate d = .ok () := by
  rw [validate_eq_ok, validateDirs_eq_ok]
  constructor
  · intro h
    exact ⟨⟨h.nonempty, h.dirs⟩, h.grace⟩
  · rintro ⟨⟨hNonempty, hDirs⟩, hGrace⟩
    exact ⟨hNonempty, Path.dedup_pairwise _, hDirs, hGrace⟩

/-- **There is an effective configuration** if what is loaded is usable with what was given beside
it. -/
theorem effective_eq_ok : effective d file o = .ok c ↔
    ∃ loaded, Loads d file loaded ∧ (loaded.override o).Usable d ∧ c = loaded.override o := by
  have hRest (loaded : Config) :
      (do (loaded.override o).validate d; return loaded.override o : Except ConfigError Config) =
        .ok c ↔ (loaded.override o).Usable d ∧ c = loaded.override o := by
    rw [usable_override]
    cases (loaded.override o).validate d with
    | error why => simp [bind, Except.bind]
    | ok u => simp [bind, Except.bind, pure, Except.pure, eq_comm]
  unfold effective
  cases file with
  | none =>
    show _ ↔ ∃ loaded, loaded = ({} : Config) ∧ _
    rw [exists_eq_left]
    exact hRest {}
  | some path =>
    simp only [← load_eq_ok]
    cases load d path with
    | error why => simp [bind, Except.bind]
    | ok loaded =>
      simp only [Except.ok.injEq, exists_eq_left']
      exact hRest loaded

/-- A usable configuration stays as it is where nothing is given beside it. -/
theorem Usable.override (h : c.Usable d) : c.override {} = c := by
  show (⟨⟨Path.dedup c.watch.dirs, c.watch.gracePeriodMs⟩, c.verbose⟩ : Config) = c
  rw [Path.dedup_eq_self h.apart]

theorem Usable.kept (h : c.Usable d) (hKeeps : d.Keeps d') : c.Usable d' :=
  ⟨h.nonempty, h.apart, fun dir hDir => hKeeps dir (h.dirs dir hDir), h.grace⟩

/-- **A usable configuration** that is shown in a file is the effective one. -/
theorem Usable.effective (h : c.Usable d)
    (hFile : d.readText path = .ok (c.write .indented ++ "\n")) :
    effective d (some path) {} = .ok c := by
  refine effective_eq_ok.mpr ⟨c, ⟨_, hFile, c.read_shown⟩, ?_, h.override.symm⟩
  rwa [h.override]

theorem usable_of_effective (h : Config.effective d file o = .ok c) : c.Usable d := by
  obtain ⟨loaded, -, hUsable, rfl⟩ := effective_eq_ok.mp h
  exact hUsable

end Config

/-- The program is asked to check a configuration and nothing else. -/
def ChecksWith (env : Environment) (args : List ByteString) (file : Option Path)
    (o : Overrides) : Prop :=
  ∃ invocation, Invocation.parse (env.lookup "ADWATCHD_CONFIG") args = .ok invocation ∧
    invocation.command = .check ∧ invocation.config = file ∧ invocation.overrides = o

section Checks

variable {env : Environment} {args : List ByteString} {file : Option Path} {o : Overrides}
  {d : Disk} {output : String}

/-- A check that is over without an error has shown the effective configuration. -/
theorem checked_eq (h : ChecksWith env args file o) :
    runProgram env args d = .exit { status := 0, output } ↔
      ∃ c, Config.effective d file o = .ok c ∧ output = c.write .indented ++ "\n" := by
  obtain ⟨invocation, hParse, hCheck, rfl, rfl⟩ := h
  unfold runProgram
  rw [hParse]
  dsimp only
  cases Config.effective d invocation.config invocation.overrides with
  | error why => simp
  | ok c => simp [hCheck, eq_comm]

end Checks

/-- **The effective configuration.** There is one if and only if the file, if one is given, can be
read and says a configuration, and of this with what was given beside it the list of directories
is not empty, all that are left of it without repeats are directories, and the grace period is not
zero: it is what is left of the list, that grace period, and how much is logged by the file. On a
disk that has all the directories, with the configuration as a check shows it for a file and
nothing given beside it, the effective configuration is the same, and a check shows the same
again. -/
theorem effective_configuration (d : Disk) (file : Option Path) (o : Overrides) :
    (∀ c, Config.effective d file o = .ok c ↔
      ∃ loaded, Config.Loads d file loaded ∧ loaded.listed o ≠ [] ∧
        (∀ dir ∈ Path.dedup (loaded.listed o), d.isDir dir = true) ∧ loaded.grace o ≠ 0 ∧
          c = ⟨⟨Path.dedup (loaded.listed o), loaded.grace o⟩, loaded.verbose⟩) ∧
      (∀ c, Config.effective d file o = .ok c → ∀ d' path, d.Keeps d' →
        d'.readText path = .ok (c.write .indented ++ "\n") →
          Config.effective d' (some path) {} = .ok c) ∧
      ∀ env args output, ChecksWith env args file o →
        runProgram env args d = .exit { status := 0, output } →
          ∀ d' path env' args', d.Keeps d' → d'.readText path = .ok output →
            ChecksWith env' args' (some path) {} →
              runProgram env' args' d' = .exit { status := 0, output } := by
  have hAgain : ∀ c, Config.effective d file o = .ok c → ∀ d' path, d.Keeps d' →
      d'.readText path = .ok (c.write .indented ++ "\n") →
        Config.effective d' (some path) {} = .ok c := fun c hEffective d' path hKeeps hFile =>
    ((Config.usable_of_effective hEffective).kept hKeeps).effective hFile
  refine ⟨fun c => ?_, hAgain, ?_⟩
  · rw [Config.effective_eq_ok]
    refine exists_congr fun loaded => and_congr_right fun _ => ?_
    rw [Config.usable_override, Config.validate_eq_ok, validateDirs_eq_ok, Config.override_eq,
      ne_eq, Path.dedup_eq_nil, and_assoc, and_assoc]
    exact Iff.rfl
  · intro env args output hChecks hRun d' path env' args' hKeeps hFile hAgainChecks
    obtain ⟨c, hEffective, rfl⟩ := (checked_eq hChecks).mp hRun
    exact (checked_eq hAgainChecks).mpr ⟨c, hAgain c hEffective d' path hKeeps hFile, rfl⟩

/-- Two spellings of a link to a directory, with the directory itself between them. -/
def givenBeside : Overrides where
  dirs := [⟨"l/"⟩, ⟨"d"⟩, ⟨"l"⟩]
  gracePeriodMs := some 7

/-- What is left of it, with how much is logged by the file. -/
def leftOver : Config :=
  ⟨⟨[⟨"l/"⟩, ⟨"d"⟩], 7⟩, 2⟩

/-- A disk with a configuration that cannot be used by itself, and one as it is shown. -/
def stocked : Disk where
  entries := [([.text "c"],
      .file (.text "\x7b\"verbose\":2,\"watch\":\x7b\"dirs\":[\"x\"]\x7d\x7d")),
    ([.text "d"], .dir), ([.text "l"], .link (.text "d")),
    ([.text "s"], .file (.text (leftOver.write .indented ++ "\n")))]
  home := []

/-- A configuration at fault is mended from outside, shown, and checked again as it was shown. -/
theorem mended_configuration_is_shown_again :
    Config.effective stocked (some ⟨"c"⟩) {} = .error (.missingDirectory ⟨"x"⟩) ∧
      Config.effective stocked (some ⟨"c"⟩) givenBeside = .ok leftOver ∧
      Config.effective stocked (some ⟨"s"⟩) {} = .ok leftOver ∧
      runProgram [] [.text "-cs", .text "check"] stocked =
        .exit { status := 0, output := leftOver.write .indented ++ "\n" } := by
  have hShown : stocked.readText ⟨"s"⟩ = .ok (leftOver.write .indented ++ "\n") := by
    rfl
  have hEffective : Config.effective stocked (some ⟨"c"⟩) givenBeside = .ok leftOver := by
    decide +kernel
  have hFirst : ChecksWith [] [.text "-cc", .text "check", .text "--grace-period-ms=7",
      .text "-dl/", .text "-dd", .text "-dl"] (some ⟨"c"⟩) givenBeside :=
    ⟨⟨.check, some ⟨"c"⟩, givenBeside, 0, false⟩, by decide +kernel, rfl, rfl, rfl⟩
  have hSecond : ChecksWith [] [.text "-cs", .text "check"] (some ⟨"s"⟩) {} :=
    ⟨⟨.check, some ⟨"s"⟩, {}, 0, false⟩, by decide +kernel, rfl, rfl, rfl⟩
  obtain ⟨-, hAgain, hRuns⟩ := effective_configuration stocked (some ⟨"c"⟩) givenBeside
  refine ⟨by decide +kernel, hEffective, hAgain _ hEffective _ _ (.refl _) hShown, ?_⟩
  exact hRuns _ _ _ hFirst ((checked_eq hFirst).mpr ⟨_, hEffective, rfl⟩) _ _ _ _ (.refl _) hShown
    hSecond

end TreeWatch
