import TreeWatch.Error

/-!
# Notices

What the watch tells about itself while it runs. A notice is a value; its line in the log is the
message followed by its fields. Warnings report what went wrong without stopping the watch, the
others what it does, in one of three degrees of detail.
-/

namespace TreeWatch

/-- How much a notice matters, from the finest detail on. -/
inductive Level where
  | trace
  | debug
  | info
  | warning
  deriving DecidableEq, Repr

/-- Something worth telling. -/
inductive Notice where
  | walking (root : Path)
  | subscribed (path : Path)
  | registered (root : Path) (added : Nat)
  | unsubscribed (path : Path) (removed : Nat)
  | artifactPassed (path : Path)
  | becameDirty (root : Path)
  | flushingAtExit
  | skippedEvent (error : WatchError)
  | skippedEntry (error : WatchError)
  | statFailed (path : Path) (fault : Fault)
  | newDirFailed (path : Path) (error : WatchError)
  | newFileFailed (path : Path) (error : WatchError)
  | unattributed (path : Path)
  | eventFailed (error : EngineError)
  | channelClosed
  | bumping (path : Path)
  | counterUnusable (path : Path) (error : WatchError)
  | versionReset (path : Path) (reason : String)
  | versionOverflow (path : Path)
  | temporaryLeft (path : Path) (fault : Fault)
  | bumped (root : Path) (version : UInt64)
  | bumpFailed (root : Path) (error : WatchError)
  | watching (roots : List Path) (grace : UInt64)
  | watchEnded
  | starting (dirs : List Path) (grace : UInt64)
  | started
  | stopping
  | stopped
  | updating (old new : List Path)
  | restoring (error : WatchError)
  | restored
  | restoreFailed (error : WatchError)
  | graceIgnored (current configured : UInt64)
  | reloaded (path : Path) (dirs : List Path)
  | reloadFailed (path : Path) (message : String)
  | reloadDisabled
  | reloadUnavailable (path : Path) (error : EngineError)
  | watchingConfig (path : Path)
  | terminated
  | interrupted
  deriving DecidableEq

/-- Decimals without the zeros at their end. -/
def trimDecimals (digits : List Char) : List Char :=
  (digits.reverse.dropWhile (· == '0')).reverse

/-- A span of milliseconds as it is logged: in seconds from one second on. No time at all is shown
in the smallest unit. -/
def showDuration (ms : UInt64) : String :=
  let n := ms.toNat
  if n = 0 then "0ns"
  else if n < 1000 then toString n ++ "ms"
  else
    let digits := Nat.toDigits 10 (n % 1000)
    let decimals := trimDecimals (List.replicate (3 - digits.length) '0' ++ digits)
    let fraction := if decimals = [] then "" else "." ++ String.ofList decimals
    toString (n / 1000) ++ fraction ++ "s"

namespace Notice

/-- How much the notice matters. -/
def level : Notice → Level
  | .subscribed _ | .artifactPassed _ => .trace
  | .walking _ | .registered _ _ | .unsubscribed _ _ | .becameDirty _ | .flushingAtExit => .debug
  | .bumping _ | .bumped _ _ | .watching _ _ | .watchEnded | .starting _ _ | .started | .stopping
  | .stopped | .updating _ _ | .restored | .reloaded _ _ | .reloadDisabled | .watchingConfig _
  | .terminated | .interrupted => .info
  | _ => .warning

/-- The notice as it is logged: its message and its fields. -/
def text : Notice → String
  | .walking root => "Watching directory and children path=" ++ root.spelling
  | .subscribed path => "Watching path=" ++ path.spelling
  | .registered root added =>
    "Root registered root=" ++ root.spelling ++ " added=" ++ toString added
  | .unsubscribed path removed =>
    "Stopped watching path=" ++ path.spelling ++ " removed=" ++ toString removed
  | .artifactPassed path => "Ignoring counter file event path=" ++ path.spelling
  | .becameDirty root => "Root marked dirty root=" ++ root.spelling
  | .flushingAtExit => "Flushing pending changes before exit"
  | .skippedEvent e => "Skipping path in file event error=" ++ e.message
  | .skippedEntry e => "Skipping path error=" ++ e.message
  | .statFailed path fault => "Failed to stat path=" ++ path.spelling ++ " error=" ++ fault.message
  | .newDirFailed path e =>
    "Failed to watch new directory path=" ++ path.spelling ++ " error=" ++ e.message
  | .newFileFailed path e =>
    "Failed to watch new file path=" ++ path.spelling ++ " error=" ++ e.message
  | .unattributed path => "No root directory matching path found path=" ++ path.spelling
  | .eventFailed e => "Got event error error=" ++ e.message
  | .channelClosed => "Notification channel closed"
  | .bumping path => "Bumping version path=" ++ path.spelling
  | .counterUnusable path e =>
    "Error loading counter contents, creating a new file path=" ++ path.spelling ++ " error="
      ++ e.message
  | .versionReset path reason =>
    "Resetting version to 0 path=" ++ path.spelling ++ " reason=" ++ reason
  | .versionOverflow path =>
    "Version counter overflowed, restarting from 0 path=" ++ path.spelling
  | .temporaryLeft path fault =>
    "Failed to remove temporary counter file path=" ++ path.spelling ++ " error=" ++ fault.message
  | .bumped root version =>
    "Version bumped root=" ++ root.spelling ++ " version=" ++ toString version.toNat
  | .bumpFailed root e => "Failed to bump version root=" ++ root.spelling ++ " error=" ++ e.message
  | .watching roots grace =>
    "Watching roots=" ++ Path.quotedList roots ++ " grace_period=" ++ showDuration grace
  | .watchEnded => "Watcher stopped"
  | .starting dirs grace =>
    "Starting watcher dirs=" ++ Path.quotedList dirs ++ " grace_period=" ++ showDuration grace
  | .started => "Watcher started"
  | .stopping => "Stopping watcher"
  | .stopped => "Watcher stopped"
  | .updating old new =>
    "Updating watched directories from=" ++ Path.quotedList old ++ " to=" ++ Path.quotedList new
  | .restoring e => "New directories failed to start, restoring previous list error=" ++ e.message
  | .restored => "Previous directories restored"
  | .restoreFailed e => "Failed to restore previous directories error=" ++ e.message
  | .graceIgnored current configured =>
    "Grace period changes take effect after a restart current_ms=" ++ toString current.toNat
      ++ " configured_ms=" ++ toString configured.toNat
  | .reloaded path dirs =>
    "Configuration reloaded path=" ++ path.spelling ++ " dirs=" ++ Path.quotedList dirs
  | .reloadFailed path message =>
    "Failed to apply configuration change path=" ++ path.spelling ++ " error=" ++ message
  | .reloadDisabled =>
    "Directories given on the command line, configuration reload disabled"
  | .reloadUnavailable path e =>
    "Configuration reload unavailable path=" ++ path.spelling ++ " error=" ++ e.message
  | .watchingConfig path => "Watching configuration file path=" ++ path.spelling
  | .terminated => "Received SIGTERM, shutting down"
  | .interrupted => "Received Ctrl-C, shutting down"

end Notice

end TreeWatch
