import TreeWatch.ByteString
import TreeWatch.Config.Override
import TreeWatch.Text.Numeral

/-!
# Arguments

The command line of the program: options, a command, and options of the command. Arguments are
read from the left, and the first that is out of place, or that asks for the version or for help,
ends the reading (`Stop`).

* `readArgument` — what one argument does;
* `readLevel` — the arguments up to the command, or those after it;
* `Invocation.parse` — a whole command line.

The options of the program itself may stand before the command or after it; of two places, the one
after the command counts.
-/

namespace TreeWatch

/-- What the program is asked to do. -/
inductive Command where
  /-- Watch until told to stop. -/
  | run
  /-- Check the configuration and print it. -/
  | check
  deriving DecidableEq, Repr

/-- Why reading the arguments ended early. -/
inductive Stop where
  | usage
  | version (command : Option Command)
  | help (command : Option Command)
  deriving DecidableEq, Repr

/-- An option that is on or off, or that counts. -/
inductive Flag where
  | verbose
  | noColor
  | help
  | version
  deriving DecidableEq, Repr

/-- An option with a value. -/
inductive Setting where
  | config
  | dir
  | gracePeriod
  deriving DecidableEq, Repr

/-- An option of either kind. -/
inductive Choice where
  | flag (flag : Flag)
  | setting (setting : Setting)
  deriving DecidableEq, Repr

/-- The option with a long name. Before the command only those of the program itself are known. -/
def longChoice? (command : Option Command) : String → Option Choice
  | "verbose" => some (.flag .verbose)
  | "no-color" => some (.flag .noColor)
  | "help" => some (.flag .help)
  | "version" => some (.flag .version)
  | "config" => some (.setting .config)
  | "dir" => command.map fun _ => .setting .dir
  | "grace-period-ms" => command.map fun _ => .setting .gracePeriod
  | _ => none

/-- The option with a short name. -/
def shortChoice? (command : Option Command) : Char → Option Choice
  | 'v' => some (.flag .verbose)
  | 'h' => some (.flag .help)
  | 'V' => some (.flag .version)
  | 'c' => some (.setting .config)
  | 'd' => command.map fun _ => .setting .dir
  | _ => none

/-! ## One argument -/

/-- What the options on one side of the command have given. -/
structure Given where
  config : Option Path := none
  overrides : Overrides := {}
  /-- How often more output was asked for, if at all. -/
  verbose : Option UInt8 := none
  noColor : Bool := false
  deriving DecidableEq, Repr

/-- One more, but never more than the type holds. -/
def oneMore (n : UInt8) : UInt8 :=
  if n.toNat + 1 < UInt8.size then n + 1 else n

namespace Given

/-- Takes a flag into account. -/
def raise (g : Given) (command : Option Command) : Flag → Except Stop Given
  | .verbose => .ok { g with verbose := some (oneMore (g.verbose.getD 0)) }
  | .noColor => if g.noColor then .error .usage else .ok { g with noColor := true }
  | .help => .error (.help command)
  | .version => .error (.version command)

/-- Takes the value of a setting into account. Directories add up; anything else may be given
once. -/
def assign (g : Given) (setting : Setting) (value : List Char) : Except Stop Given :=
  match setting with
  | .config =>
    if g.config.isSome then .error .usage
    else .ok { g with config := some ⟨String.ofList value⟩ }
  | .dir =>
    let dirs := g.overrides.dirs ++ [⟨String.ofList value⟩]
    .ok { g with overrides := { g.overrides with dirs } }
  | .gracePeriod =>
    match g.overrides.gracePeriodMs, Numeral.read value with
    | none, .ok n => .ok { g with overrides := { g.overrides with gracePeriodMs := some n } }
    | _, _ => .error .usage

/-- Takes a value into account that is part of an argument. An argument that is not text has no
values. -/
def assignPart (g : Given) (setting : Setting) (isText : Bool) (value : List Char) :
    Except Stop Given :=
  if isText then g.assign setting value else .error .usage

end Given

/-- What an argument comes to. -/
inductive Reading where
  /-- It is complete. -/
  | done (given : Given)
  /-- The value of a setting is the next argument. -/
  | owing (given : Given) (setting : Setting)
  | command (command : Command)
  /-- It asks for help on what the next argument names. -/
  | helpOn
  /-- No options follow. -/
  | closed

/-- Reads short options that share an argument. A setting takes what is left of it as its value. -/
def readCluster (command : Option Command) (isText : Bool) (given : Given) :
    List Char → Except Stop Reading
  | [] => .ok (.done given)
  | c :: rest =>
    match shortChoice? command c with
    | none => .error .usage
    | some (.flag flag) => do
      let given ← given.raise command flag
      readCluster command isText given rest
    | some (.setting setting) =>
      match rest with
      | [] => .ok (.owing given setting)
      | '=' :: value => (given.assignPart setting isText value).map .done
      | value => (given.assignPart setting isText value).map .done

/-- Reads a long option, with its value after an equals sign if there is one. -/
def readLong (command : Option Command) (isText : Bool) (given : Given) (s : List Char) :
    Except Stop Reading :=
  let name := String.ofList (s.takeWhile (· ≠ '='))
  match longChoice? command name, s.dropWhile (· ≠ '=') with
  | some (.flag flag), [] => (given.raise command flag).map .done
  | some (.setting setting), [] => .ok (.owing given setting)
  | some (.setting setting), _ :: value => (given.assignPart setting isText value).map .done
  | _, _ => .error .usage

/-- The command a word names. -/
def Command.ofName? : String → Option Command
  | "run" => some .run
  | "check" => some .check
  | _ => none

/-- Reads a word that is no option: the command, if there is none yet. -/
def readWord (command : Option Command) (word : String) : Except Stop Reading :=
  match command, Command.ofName? word with
  | some _, _ => .error .usage
  | none, some c => .ok (.command c)
  | none, none => if word = "help" then .ok .helpOn else .error .usage

/-- Reads an argument. A dash by itself is a word, two of them end the options. -/
def readArgument (command : Option Command) (given : Given) (arg : ByteString) :
    Except Stop Reading :=
  let isText := arg.text?.isSome
  match arg.display.toList with
  | ['-', '-'] => .ok .closed
  | '-' :: '-' :: name => readLong command isText given name
  | '-' :: c :: cluster => readCluster command isText given (c :: cluster)
  | word => readWord command (String.ofList word)

/-- Whether an argument can be the value of the option before it: not if it looks like an option. -/
def valueOf? (arg : ByteString) : Option (List Char) :=
  match arg with
  | .raw _ _ => none
  | .text s =>
    match s.toList with
    | '-' :: _ :: _ => none
    | value => some value

/-! ## All arguments -/

/-- Answers a request for help on a command, or on the program. -/
def stopForHelp : List ByteString → Stop
  | [] => .help none
  | [.text name] =>
    match Command.ofName? name with
    | some c => .help (some c)
    | none => .usage
  | _ => .usage

/-- Reads arguments up to the command and with what follows it, or to the end. -/
def readLevel (command : Option Command) (given : Given) :
    List ByteString → Except Stop (Given × Option (Command × List ByteString))
  | [] => .ok (given, none)
  | arg :: rest =>
    match readArgument command given arg with
    | .error stop => .error stop
    | .ok (.done given) => readLevel command given rest
    | .ok (.owing given setting) =>
      match rest with
      | [] => .error .usage
      | next :: rest =>
        match valueOf? next with
        | none => .error .usage
        | some value =>
          match given.assign setting value with
          | .error stop => .error stop
          | .ok given => readLevel command given rest
    | .ok (.command c) => .ok (given, some (c, rest))
    | .ok .helpOn => .error (stopForHelp rest)
    | .ok .closed => if rest = [] then .ok (given, none) else .error .usage

/-- What a command line asks for. -/
structure Invocation where
  command : Command
  config : Option Path
  overrides : Overrides
  verbose : UInt8
  noColor : Bool
  deriving DecidableEq, Repr

namespace Invocation

/-- The configuration file to use: the one given after the command, before it, or by the
environment, in this order. What the environment says has to be text wherever the arguments say
nothing. -/
def configOf (preset : Option ByteString) (outer inner : Option Path) : Except Stop (Option Path) :=
  match inner, outer, preset with
  | some path, some _, _ => .ok (some path)
  | _, _, some (.raw _ _) => .error .usage
  | some path, none, _ | none, some path, _ => .ok (some path)
  | none, none, some (.text s) => .ok (some ⟨s⟩)
  | none, none, none => .ok none

/-- Reads a command line. `preset` is the configuration file that the environment names. -/
def parse (preset : Option ByteString) (args : List ByteString) : Except Stop Invocation := do
  let (outer, command) ← readLevel none {} args
  let some (command, rest) := command | .error .usage
  let (inner, _) ← readLevel (some command) {} rest
  let config ← configOf preset outer.config inner.config
  return { command, config
           overrides := inner.overrides
           verbose := (inner.verbose <|> outer.verbose).getD 0
           noColor := inner.noColor || outer.noColor }

end Invocation

/-- The name of the program, with the command it was asked about. -/
def programName : Option Command → String
  | none => "adwatchd"
  | some .run => "adwatchd-run"
  | some .check => "adwatchd-check"

/-- The text that tells the version. -/
def versionText (command : Option Command) : String :=
  programName command ++ " 0.1.0\n"

/-- What is printed for a command line that cannot be understood. -/
def usageText : String :=
  "Usage: adwatchd [OPTIONS] <run|check> [OPTIONS]\n\nFor more information, try '--help'."

/-- What is printed on a request for help. -/
def helpText : String :=
  "\n".intercalate [
    "Usage: adwatchd [OPTIONS] <run|check> [OPTIONS]",
    "",
    "Commands:",
    "  run    Watch the configured directories until interrupted",
    "  check  Validate the configuration and print it as JSON",
    "",
    "Options:",
    "  -c, --config <CONFIG>       Path to the JSON configuration file",
    "  -v, --verbose...            More output; twice for everything",
    "      --no-color              Disable colored output",
    "  -h, --help                  Print help",
    "  -V, --version               Print version",
    "",
    "Options of a command:",
    "  -d, --dir <DIR>             Directory to watch, in the stead of the configured ones",
    "      --grace-period-ms <MS>  Quiet period after the last change, in milliseconds"]

end TreeWatch
