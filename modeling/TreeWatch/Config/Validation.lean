import TreeWatch.Config.Reader
import TreeWatch.Error
import TreeWatch.FileSystem

/-!
# Checking a configuration

Whether a configuration can be used on a file system: there is a directory to watch, every one of
them exists, and the grace period is not zero. The first entry at fault is the one reported.
-/

namespace TreeWatch

variable {σ : Type} [FileSystem σ]

/-- The error of a path that is no existing directory. -/
def checkDir (d : σ) (dir : Path) : Except ConfigError Unit :=
  if !FileSystem.exists? d dir then .error (.missingDirectory dir)
  else if !FileSystem.isDir d dir then .error (.invalidPath dir "not a directory")
  else .ok ()

/-- Checks a list of root directories. -/
def validateDirs (d : σ) (dirs : List Path) : Except ConfigError Unit :=
  if dirs = [] then .error .noDirectories else dirs.forM (checkDir d)

namespace WatchConfig

/-- Checks the directories, then the grace period. -/
def validate (d : σ) (c : WatchConfig) : Except ConfigError Unit := do
  validateDirs d c.dirs
  if c.gracePeriodMs = 0 then
    .error (.invalidOption "grace_period_ms" "must be greater than zero")

end WatchConfig

namespace Config

/-- Checks the whole configuration. -/
def validate (d : σ) (c : Config) : Except ConfigError Unit :=
  c.watch.validate d

/-- The configuration in a file. -/
def load (d : σ) (path : Path) : Except ConfigError Config := do
  let text ← (FileSystem.readText d path).mapError (.read path)
  (Config.read text).mapError .parse

end Config

end TreeWatch
