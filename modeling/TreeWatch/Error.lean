import TreeWatch.ByteString
import TreeWatch.Fault
import TreeWatch.Json.Fault
import TreeWatch.Path.Basic

/-!
# Errors

What can go wrong when a configuration is loaded or a watch is started, run or changed. Each error
keeps its cause as a value; the wording is in one function per type. Errors of the watch are fatal,
and the operation was given up, or recoverable, and watching goes on.
-/

namespace TreeWatch

/-! ## Configuration -/

/-- Why a configuration cannot be used. -/
inductive ConfigError where
  | noDirectories
  | invalidPath (path : Path) (reason : String)
  | missingDirectory (path : Path)
  | invalidOption (option : String) (reason : String)
  | read (path : Path) (fault : Fault)
  | parse (refusal : Json.Refusal)
  deriving DecidableEq, Repr

namespace ConfigError

/-- The error in words. -/
def message : ConfigError → String
  | .noDirectories => "no directories to watch"
  | .invalidPath path reason => "invalid path '" ++ path.spelling ++ "': " ++ reason
  | .missingDirectory path => "directory " ++ path.spelling ++ " does not exist"
  | .invalidOption option reason =>
    "invalid configuration option '" ++ option ++ "': " ++ reason
  | .read path fault => "failed to read configuration " ++ path.spelling ++ ": " ++ fault.message
  | .parse refusal => "failed to parse configuration: " ++ refusal.message

/-- The path the error is about. -/
def path? : ConfigError → Option Path
  | .invalidPath path _ | .missingDirectory path | .read path _ => some path
  | .noDirectories | .invalidOption _ _ | .parse _ => none

/-- The error and what caused it, each in words. -/
def chain (e : ConfigError) : List String :=
  match e with
  | .read _ fault => [e.message, fault.message]
  | .parse refusal => [e.message, refusal.message]
  | _ => [e.message]

end ConfigError

/-! ## The notification engine -/

/-- Why the engine that delivers notifications refuses a request. -/
inductive EngineFault where
  | pathNotFound
  | watchNotFound
  | watchLimit
  | access (fault : Fault)
  | other (text : String)
  deriving DecidableEq, Repr

/-- A refusal of the engine, with the paths it concerns. -/
structure EngineError where
  fault : EngineFault
  paths : List ByteString := []
  deriving DecidableEq

namespace EngineError

/-- An access that failed. A missing path has a fault of its own. -/
def ofFault (fault : Fault) (paths : List ByteString := []) : EngineError :=
  if fault = .notFound then ⟨.pathNotFound, paths⟩ else ⟨.access fault, paths⟩

/-- The refusal in words. -/
def message (e : EngineError) : String :=
  let fault :=
    match e.fault with
    | .pathNotFound => "No path was found."
    | .watchNotFound => "No watch was found."
    | .watchLimit => "OS file watch limit reached."
    | .access fault => fault.message
    | .other text => text
  if e.paths = [] then fault
  else fault ++ " about " ++ Quoted.list (e.paths.map ByteString.quoted)

end EngineError

/-! ## Walks -/

/-- Why a walk through a tree stopped: an entry could not be looked at. -/
inductive WalkFault where
  /-- The access to a path failed. -/
  | access (path : ByteString) (fault : Fault)
  /-- A fault at a path, or without one. -/
  | plain (path? : Option ByteString) (fault : Fault)
  deriving DecidableEq

/-- The fault in words. -/
def WalkFault.message : WalkFault → String
  | .access path fault =>
    path.display ++ ": IO error for operation on " ++ path.display ++ ": " ++ fault.message
  | .plain (some path) fault => path.display ++ ": " ++ fault.message
  | .plain none fault => fault.message

/-! ## The watch -/

/-- Why a watch operation failed, or what it could not do and passed over. -/
inductive WatchError where
  | engine (e : EngineError)
  | walk (path : Path) (fault : WalkFault)
  | config (e : ConfigError)
  | notRunning
  | alreadyRunning
  | sessionAborted (reason : String)
  | counter (path : Path) (reason : String)
  | access (path : Path) (fault : Fault)
  | notText (path : ByteString)
  deriving DecidableEq

namespace WatchError

/-- The error in words. -/
def message : WatchError → String
  | .engine e => "notify watcher error: " ++ e.message
  | .walk path fault =>
    "can't watch directory and children of " ++ path.spelling ++ ": " ++ fault.message
  | .config e => e.message
  | .notRunning => "the watcher is already stopping or not running"
  | .alreadyRunning => "the watcher is already running"
  | .sessionAborted reason => "watch session aborted: " ++ reason
  | .counter path reason => "malformed counter file " ++ path.spelling ++ ": " ++ reason
  | .access path fault => "I/O error on " ++ path.spelling ++ ": " ++ fault.message
  | .notText path => "path is not valid UTF-8: " ++ path.display

/-- Whether watching goes on after the error. -/
def isRecoverable : WatchError → Bool
  | .access _ _ | .counter _ _ | .notText _ => true
  | _ => false

/-- Whether the operation was given up. -/
def isFatal (e : WatchError) : Bool :=
  !e.isRecoverable

/-- The path the error is about. -/
def path? : WatchError → Option Path
  | .walk path _ | .counter path _ | .access path _ => some path
  | .config e => e.path?
  | _ => none

/-- The error and what caused it, each in words. -/
def chain (e : WatchError) : List String :=
  match e with
  | .engine cause => [e.message, cause.message]
  | .walk _ fault => [e.message, fault.message]
  | .config cause => cause.chain
  | .access _ fault => [e.message, fault.message]
  | _ => [e.message]

end WatchError

end TreeWatch
