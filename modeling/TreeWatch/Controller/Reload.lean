import TreeWatch.Controller.Operations

/-!
# Reloading the configuration

While a watch runs, its configuration file may change. Applying the file reads it again and
exchanges the directories if they differ from those watched; everything else in the file takes
effect at the next start. A file that cannot be used leaves the watch as it is.

A reloader watches the directory of the file, since editors replace files, and applies the file
when it was touched.
-/

namespace TreeWatch

/-- Why a configuration file was not applied. -/
inductive ReloadError where
  | config (error : ConfigError)
  | watch (error : WatchError)
  deriving DecidableEq

/-- The error in words. -/
def ReloadError.message : ReloadError → String
  | .config e => e.message
  | .watch e => e.message

/-- Two lists of paths, the same component by component. -/
def Path.sameLists (ps qs : List Path) : Bool :=
  ps.map Path.components == qs.map Path.components

namespace Service

/-- What applying a file comes to before any call is made: an answer, or an update that was begun.
-/
inductive Applied where
  | answered (result : Except ReloadError Bool)
  | updating (call : Nat)

/-- Says that the grace period of a file is ignored, if it is not the one of the session. -/
def noteGrace (s : Service) (configured : UInt64) : Service :=
  match s.status.grace with
  | some current =>
    if current = configured then s else s.note .program [.graceIgnored current configured]
  | none => s

/-- Begins to apply a configuration file. -/
def beginApply (s : Service) (path : Path) : Service × Applied :=
  match Config.load s.disk path with
  | .error e => (s, .answered (.error (.config e)))
  | .ok config =>
    let dirs := config.watch.uniqueDirs
    let s := s.noteGrace config.watch.gracePeriodMs
    if Path.sameLists dirs s.status.dirs then (s, .answered (.ok false))
    else
      let (s, call) := s.beginUpdate dirs
      (s, .updating call)

/-- Applies a configuration file and waits for the answer. -/
def apply (s : Service) (path : Path) : Service × Except ReloadError Bool :=
  match s.beginApply path with
  | (s, .answered result) => (s, result)
  | (s, .updating call) =>
    let s := s.runUntilAnswered call
    match s.answerTo? call with
    | some (.ok ()) => (s, .ok true)
    | some (.error e) => (s, .error (.watch e))
    | none => (s, .error (.watch .notRunning))

/-- The notice of how a reload went, if there is something to say. -/
def reloadNotices (s : Service) (path : Path) : Except ReloadError Bool → List Notice
  | .ok true => [.reloaded path s.status.dirs]
  | .ok false => []
  | .error e => [.reloadFailed path e.message]

/-- Applies the file of the reloader if it was touched. -/
def reload (s : Service) : Service :=
  match s.reloader with
  | some ⟨path, true⟩ =>
    let (s, result) := { s with reloader := some ⟨path, false⟩ }.apply path
    s.note .program (s.reloadNotices path result)
  | _ => s

/-- Starts to watch a configuration file. The directory it is in has to be there. -/
def watchConfig (s : Service) (path : Path) : Service × Except EngineError Unit :=
  let dir := directoryOf path
  match s.disk.stat dir.native with
  | .error fault => (s, .error (.ofFault fault [dir.native]))
  | .ok _ =>
    let s := { s with tasks := s.tasks + 1, reloader := some { path } }
    (s.note .program [.watchingConfig path], .ok ())

/-- Stops watching the configuration file. The answer says whether one was watched. -/
def dropReloader (s : Service) : Service × Bool :=
  ({ s with reloader := none }.dropIfGone, s.reloader.isSome)

end Service

end TreeWatch
