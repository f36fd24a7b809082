import TreeWatch.Path.Dedup

/-!
# Configuration

What is watched and how long a burst of changes has to be over before it counts: the list of root
directories, the grace period, and how much is logged. Every part has a default.
-/

namespace TreeWatch

/-- The grace period where none is given, in milliseconds. -/
def defaultGracePeriodMs : UInt64 :=
  10000

/-- The part of the configuration that the watch engine needs. -/
structure WatchConfig where
  /-- The root directories, in order. -/
  dirs : List Path := []
  /-- How long it has to be quiet after a change before the counters go up, in milliseconds. -/
  gracePeriodMs : UInt64 := defaultGracePeriodMs
  deriving DecidableEq, Repr

/-- The whole configuration. -/
structure Config where
  watch : WatchConfig := {}
  /-- How much is logged: 0 for the usual, 1 for more, 2 and above for everything. -/
  verbose : UInt8 := 0
  deriving DecidableEq, Repr

/-- The root directories without repeats. -/
def WatchConfig.uniqueDirs (c : WatchConfig) : List Path :=
  Path.dedup c.dirs

end TreeWatch
