import TreeWatch.Config.Validation

/-!
# The effective configuration

The configuration that a run goes by: what a file says, if there is one, with what was given
beside it in its stead, and without repeats among the directories. It is checked as a whole, so a
file at fault may be mended from outside.
-/

namespace TreeWatch

/-- Values that replace those of a configuration file: directories, if there are any, and a grace
period. -/
structure Overrides where
  dirs : List Path := []
  gracePeriodMs : Option UInt64 := none
  deriving DecidableEq, Repr

namespace Config

/-- The configuration with values replaced, its directories without repeats. -/
def override (c : Config) (o : Overrides) : Config :=
  let dirs := if o.dirs = [] then c.watch.dirs else o.dirs
  { c with watch := ⟨Path.dedup dirs, o.gracePeriodMs.getD c.watch.gracePeriodMs⟩ }

/-- The effective configuration on a file system. -/
def effective {σ : Type} [FileSystem σ] (d : σ) (file : Option Path) (o : Overrides) :
    Except ConfigError Config := do
  let loaded ←
    match file with
    | some path => load d path
    | none => .ok {}
  let config := loaded.override o
  config.validate d
  return config

end Config

end TreeWatch
