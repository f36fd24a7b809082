import TreeWatch.Controller.Service

/-!
# What is shown of the log

How much of the log is shown depends on how much output was asked for, or on a filter in the
environment: a list of directives, each of which names a level, for everything or for one source
of lines.

Levels are ranked from 0, which shows nothing, to 5, which shows all. A filter that cannot be read
is as good as none.
-/

namespace TreeWatch

/-- The rank of a level: a line is shown where its rank is allowed. Rank 1 belongs to errors,
which end the program and are no lines of the log. -/
def Level.rank : Level → Nat
  | .warning => 2
  | .info => 3
  | .debug => 4
  | .trace => 5

/-- The level as it is written in front of a line. -/
def Level.label : Level → String
  | .warning => "WARN"
  | .info => "INFO"
  | .debug => "DEBUG"
  | .trace => "TRACE"

/-- The code of the color that a level is shown in: yellow, green, blue, magenta. -/
def Level.color : Level → String
  | .warning => "33"
  | .info => "32"
  | .debug => "34"
  | .trace => "35"

/-- The name that directives know the source of a line by. -/
def Scope.source : Scope → String
  | .program => "adwatchd"
  | .controller | .session _ => "treewatch"

/-- How far the sources whose names start in a certain way are shown. -/
structure Directive where
  source : String
  rank : Nat
  deriving DecidableEq, Repr

/-- Which lines are shown. -/
structure LogFilter where
  directives : List Directive
  deriving DecidableEq, Repr

/-! ## Reading a filter -/

/-- The rank that a word means, a name in any case or a digit. -/
def rankOf? (word : List Char) : Option Nat :=
  match String.ofList (word.map Char.toLower) with
  | "off" | "0" => some 0
  | "error" | "1" => some 1
  | "warn" | "2" => some 2
  | "info" | "3" => some 3
  | "debug" | "4" => some 4
  | "trace" | "5" => some 5
  | _ => none

/-- Whether a character may be part of the name of a source. -/
def isSourceChar (c : Char) : Bool :=
  c.isAlphanum || c = '_' || c = ':' || c = '-'

/-- Reads a directive: a level, or a source with a level or without. -/
def Directive.read? (s : List Char) : Option Directive :=
  match rankOf? s with
  | some rank => some ⟨"", rank⟩
  | none =>
    let name := s.takeWhile (· ≠ '=')
    if name ≠ [] ∧ name.all isSourceChar then
      match s.dropWhile (· ≠ '=') with
      | [] | ['='] => some ⟨String.ofList name, 5⟩
      | _ :: level => (rankOf? level).map fun rank => ⟨String.ofList name, rank⟩
    else none

namespace LogFilter

/-- Reads a filter. If it says nothing, only errors are shown. -/
def read? (s : String) : Option LogFilter := do
  let parts := (Pieces.split ',' s.toList).filter (· ≠ [])
  let directives ← parts.mapM Directive.read?
  return ⟨if directives = [] then [⟨"", 1⟩] else directives⟩

/-- The filter for a number of requests for more output. -/
def ofVerbosity (n : UInt8) : LogFilter :=
  ⟨[⟨"", if n = 0 then 3 else if n = 1 then 4 else 5⟩]⟩

/-! ## Using a filter -/

/-- The directive that counts for a source: of those that apply the one that names it most
closely, the last of them if there are several. -/
def directiveFor? (f : LogFilter) (source : String) : Option Directive :=
  let closer (best : Option Directive) (d : Directive) : Option Directive :=
    match best with
    | some other => if d.source.length < other.source.length then some other else some d
    | none => some d
  (f.directives.filter fun d => d.source.toList.isPrefixOf source.toList).foldl closer none

/-- Whether a source is shown up to a level. -/
def shows (f : LogFilter) (scope : Scope) (level : Level) : Bool :=
  match f.directiveFor? scope.source with
  | some d => level.rank ≤ d.rank
  | none => false

end LogFilter

/-! ## Lines -/

namespace LogLine

/-- The names of what a line is part of: the program's watch, and a session in it. They are shown
where the source they come from is. -/
def spans (l : LogLine) (f : LogFilter) : List String :=
  let watch := if f.shows .program .info then [Scope.source .program] else []
  match l.scope with
  | .program => []
  | .controller => watch
  | .session roots =>
    watch ++
      if f.shows l.scope .info then
        ["session\x7broots=" ++ Path.quotedList roots ++ "\x7d"]
      else []

/-- Whether a line is shown. -/
def isShown (l : LogLine) (f : LogFilter) : Bool :=
  f.shows l.scope l.notice.level

/-- A line of the log after its level. -/
def body (l : LogLine) (f : LogFilter) : String :=
  let spans := l.spans f
  let front := if spans = [] then "" else ":".intercalate spans ++ ": "
  front ++ l.notice.text

/-- A line of the log as it is shown. -/
def render (l : LogLine) (f : LogFilter) : String :=
  l.notice.level.label ++ " " ++ l.body f

/-- A line of the log on a terminal, its level in color. -/
def paint (l : LogLine) (f : LogFilter) : String :=
  let level := l.notice.level
  "\x1b[" ++ level.color ++ "m" ++ level.label ++ "\x1b[0m " ++ l.body f

end LogLine

end TreeWatch
