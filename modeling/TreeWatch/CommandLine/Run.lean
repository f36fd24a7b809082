import TreeWatch.CommandLine.Arguments
import TreeWatch.CommandLine.LogFilter
import TreeWatch.Config.Writer
import TreeWatch.Controller.Reload

/-!
# A run of the program

From the arguments and the environment to what the program prints and the status it ends with.
Checking a configuration is over at once; watching goes on as a `Daemon` until a signal comes.
-/

namespace TreeWatch

/-- The variables of the environment. -/
abbrev Environment : Type :=
  List (String × ByteString)

/-- How the program ends. An error is followed by what caused it. -/
structure Exit where
  status : UInt32
  output : String := ""
  errors : List String := []
  deriving DecidableEq

/-- The program while it watches. -/
structure Daemon where
  service : Service
  filter : LogFilter
  /-- Lines of the log are shown in color. -/
  color : Bool

/-- What became of a command line. -/
inductive Outcome where
  | exit (exit : Exit)
  /-- The command line cannot be understood. -/
  | usage
  /-- The command line asks for help, on a command or on the program. -/
  | help (command : Option Command)
  | watching (daemon : Daemon)

/-- A signal that ends the program. -/
inductive Signal where
  | terminate
  | interrupt
  deriving DecidableEq, Repr

namespace Daemon

/-- How the log is filtered: as the environment says, or else by how much output was asked for on
the command line or in the configuration. -/
def filterFor (env : Environment) (verbose : UInt8) : LogFilter :=
  let preset := ((env.lookup "RUST_LOG").bind ByteString.text?).bind LogFilter.read?
  preset.getD (.ofVerbosity verbose)

/-- Has the configuration file of a watch reloaded when it changes, unless its directories were
replaced from outside. -/
def followConfig (s : Service) (invocation : Invocation) : Service :=
  match invocation.config with
  | none => s
  | some path =>
    if invocation.overrides.dirs ≠ [] then s.note .program [.reloadDisabled]
    else
      match s.watchConfig path with
      | (s, .ok ()) => s
      | (s, .error e) => s.note .program [.reloadUnavailable path e]

/-- Starts to watch. -/
def start (env : Environment) (d : Disk) (invocation : Invocation) (config : Config) : Outcome :=
  let verbose := max invocation.verbose config.verbose
  let noColor := invocation.noColor || ((env.lookup "NO_COLOR").bind ByteString.text?).isSome
  let idle : Service := { disk := d, backend := { reporting := true } }
  let (s, call) := idle.beginStart config.watch.dirs config.watch.gracePeriodMs
  let s := s.runUntilAnswered call
  match s.answerTo? call with
  | some (.error e) => .exit { status := 1, errors := e.chain }
  | _ =>
    let s := (followConfig s invocation).settle
    .watching { service := s, filter := filterFor env verbose, color := !noColor }

/-- Ends the watch on a signal: what is pending is flushed first. -/
def finish (daemon : Daemon) (signal : Signal) : Daemon × Exit :=
  let notice : Notice :=
    match signal with
    | .terminate => .terminated
    | .interrupt => .interrupted
  let s := (daemon.service.note .program [notice]).dropReloader.1
  let (s, call) := s.beginStop
  let s := s.runUntilAnswered call
  let exit : Exit :=
    match s.answerTo? call with
    | some (.error e) => { status := 1, errors := e.chain }
    | _ => { status := 0 }
  ({ daemon with service := s }, exit)

/-- Goes on watching for a span of time, with the disk as others have left it at its start. -/
def watch (daemon : Daemon) (disk : Disk) (ms : Nat) : Daemon :=
  { daemon with service := ((daemon.service.observe disk).settle.sleep ms).reload.settle }

/-- The lines of the log that are shown, first line first. -/
def shownLines (daemon : Daemon) : List LogLine :=
  daemon.service.log.reverse.filter (·.isShown daemon.filter)

end Daemon

/-- Runs the program up to where it waits for signals, or to its end. -/
def runProgram (env : Environment) (args : List ByteString) (d : Disk) : Outcome :=
  match Invocation.parse (env.lookup "ADWATCHD_CONFIG") args with
  | .error .usage => .usage
  | .error (.help command) => .help command
  | .error (.version command) => .exit { status := 0, output := versionText command }
  | .ok invocation =>
    match Config.effective d invocation.config invocation.overrides with
    | .error e => .exit { status := 1, errors := e.chain }
    | .ok config =>
      match invocation.command with
      | .check => .exit { status := 0, output := config.write .indented ++ "\n" }
      | .run => Daemon.start env d invocation config

end TreeWatch
