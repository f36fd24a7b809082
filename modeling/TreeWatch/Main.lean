import Std.Async.Signal
import TreeWatch.CommandLine.Run

/-!
# The program

Looks at the real file tree, hands what it sees to the library, and carries out what comes back:
lines to print, counter files to replace, a status to end with.

The tree is looked at again at short intervals, and only as far as the run is about it: the paths
named on the command line and in the configuration, and what lies below the watched directories.
Of files other than counters and the configuration, size and time of the last change stand for the
contents.
-/

namespace TreeWatch.Main

/-! ## Looking at the file tree -/

/-- The place of a path from the root directory on. -/
def placeOf (path : String) : Place :=
  ((Pieces.split '/' path.toList).filter (· ≠ [])).map fun name => .text (String.ofList name)

/-- The path of a place. -/
def pathOf (place : Place) : String :=
  (Service.absolutePath place).display

/-- The entry at a place, if there is one. -/
def look (exact : Bool) (place : Place) : IO (Option Entry) := do
  try
    let path := (← IO.currentDir) / pathOf place
    let info ← path.symlinkMetadata
    match info.type with
    | .dir => return some .dir
    | .symlink => return some (.link (.text (← IO.FS.realPath path).toString))
    | .file =>
      if exact then return some (.file (.ofBytes (← IO.FS.readBinFile path).toList))
      else
        let time := info.modified
        return some (.file (.text (reprStr [time.sec, time.nsec.toNat, info.byteSize.toNat])))
    | .other => return some .socket
  catch _ => return none

/-- Notes the entries on the way to a place, and behind links on it. -/
partial def noteWay (d : Disk) (place : Place) : IO Disk := do
  let mut d := d
  for length in List.range (place.length + 1) do
    let part := place.take length
    if (d.get? part).isNone then
      match ← look true part with
      | none => pure ()
      | some (.link target) => d ← noteWay (d.set part (.link target)) (placeOf target.display)
      | some entry => d := d.set part entry
  return d

/-- Notes what lies below a directory. -/
partial def noteBelow (d : Disk) (place : Place) : IO Disk := do
  let mut d := d
  let names ←
    try
      pure ((← ((← IO.currentDir) / pathOf place).readDir).map (·.fileName))
    catch _ => pure #[]
  for name in names do
    let inner := place ++ [.text name]
    match (d.get? inner) <|> (← look (isCounterName name) inner) with
    | none => pure ()
    | some entry =>
      if (d.get? inner).isNone then d := d.set inner entry
      if entry.isDir then d ← noteBelow d inner
  return d

/-- What a run is about: the configuration file and what replaces its values, the directories that
are watched already, and whether what lies in a directory matters. -/
structure Interest where
  config : Option Path
  overrides : Overrides
  watched : List Path := []
  deep : Bool

/-- An image of the file tree, as far as a run is about it. -/
def image (home : Place) (interest : Interest) : IO Disk := do
  let base : Path := ⟨pathOf home⟩
  let note (d : Disk) (path : Path) : IO Disk := noteWay d (placeOf (base.join path).spelling)
  let mut d ← noteWay ⟨[], home⟩ home
  for path in interest.config.toList do
    d ← note d path
  let file : Config :=
    match interest.config.map (Config.load d) with
    | some (.ok config) => config
    | _ => {}
  for path in (file.override interest.overrides).watch.dirs ++ interest.watched do
    d ← note d path
    if interest.deep then
      match d.find .target path.native with
      | .ok place => d ← noteBelow d place
      | .error _ => pure ()
  return d

/-! ## Acting on the file tree -/

/-- Brings the counter files that differ from one image to the next to the real file tree. -/
def replaceCounters (before after : Disk) : IO Unit := do
  for (place, entry) in after.entries do
    match entry with
    | .file contents =>
      if before.get? place ≠ some entry then
        let path := pathOf place
        let temporary := (temporaryPath ⟨path⟩).spelling
        try
          IO.FS.writeBinFile temporary ⟨contents.bytes.toArray⟩
          IO.FS.rename temporary path
        catch e => IO.eprintln e.toString
    | _ => pure ()

/-! ## Running -/

/-- Prints the lines that the log has gathered, and empties it. -/
def printLog (daemon : Daemon) : IO Daemon := do
  for line in daemon.shownLines do
    IO.println (if daemon.color then line.paint daemon.filter else line.render daemon.filter)
  return { daemon with service := { daemon.service with log := [] } }

/-- Prints how the program ends. -/
def report (exit : Exit) : IO UInt32 := do
  IO.print exit.output
  unless exit.errors.isEmpty do
    IO.eprintln "Error:"
    for (error, n) in exit.errors.zipIdx do
      IO.eprintln ("   " ++ toString n ++ ": " ++ error)
  return exit.status

/-- How long to wait between two looks at the file tree, in milliseconds. -/
def interval : Nat :=
  100

/-- Watches until a signal comes. -/
partial def watchUntil (daemon : Daemon) (received : BaseIO (Option Signal)) (interest : Interest) :
    IO UInt32 := do
  let daemon ← printLog daemon
  match ← received with
  | some signal =>
    let (last, exit) := daemon.finish signal
    replaceCounters daemon.service.disk last.service.disk
    let _ ← printLog last
    report exit
  | none =>
    IO.sleep interval.toUInt32
    let interest := { interest with watched := daemon.service.status.dirs }
    let seen ← image daemon.service.disk.home interest
    let next := daemon.watch seen interval
    replaceCounters seen next.service.disk
    watchUntil next received interest

/-- Tells which of the two signals has come, once one has. -/
def listen : IO (BaseIO (Option Signal)) := do
  let terminate ← (← Std.Async.Signal.Waiter.mk .sigterm false).wait
  let interrupt ← (← Std.Async.Signal.Waiter.mk .sigint false).wait
  return do
    if ← IO.hasFinished interrupt then return some .interrupt
    if ← IO.hasFinished terminate then return some .terminate
    return none

/-- The variables of the environment that the program goes by. -/
def readEnvironment : IO Environment := do
  let mut env : Environment := []
  for name in ["ADWATCHD_CONFIG", "RUST_LOG", "NO_COLOR"] do
    if let some value ← IO.getEnv name then
      env := env ++ [(name, .text value)]
  return env

/-- What a command line is about. -/
def interestOf (env : Environment) (args : List ByteString) : Interest :=
  match Invocation.parse (env.lookup "ADWATCHD_CONFIG") args with
  | .error _ => { config := none, overrides := {}, deep := false }
  | .ok i => { config := i.config, overrides := i.overrides, deep := i.command = .run }

/-- Runs the program. -/
def run (args : List ByteString) : IO UInt32 := do
  let env ← readEnvironment
  let interest := interestOf env args
  let disk ← image (placeOf (← IO.currentDir).toString) interest
  match runProgram env args disk with
  | .exit exit => report exit
  | .usage =>
    IO.eprintln usageText
    return 2
  | .help _ =>
    IO.println helpText
    return 0
  | .watching daemon => watchUntil daemon (← listen) interest

end TreeWatch.Main

/-- The program, on its arguments. -/
def main (args : List String) : IO UInt32 :=
  TreeWatch.Main.run (args.map TreeWatch.ByteString.text)
