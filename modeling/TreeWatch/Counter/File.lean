import TreeWatch.Text.Blank
import TreeWatch.Text.Lines
import TreeWatch.Text.Numeral
import TreeWatch.Text.Quoted

/-!
# Counter files

A counter file is a list of lines: section headers, entries `key=value`, and lines without meaning
(blank or comments). One entry matters, the first with the key `Version` under a header `General`,
both in any ASCII case; all other lines are kept as they are.

* `CounterFile.parse`, `CounterFile.render` — between text and lines;
* `CounterFile.version`, `CounterFile.setVersion` — the number.
-/

namespace TreeWatch

/-- The section that holds the version. -/
def counterSection : String :=
  "General"

/-- The key of the version. -/
def counterKey : String :=
  "Version"

/-- Whether two texts agree up to the case of ASCII letters. -/
def sameIgnoringCase (a b : List Char) : Bool :=
  a.map Char.toLower == b.map Char.toLower

/-- What a line means. -/
inductive LineKind where
  | header (name : List Char)
  | entry (key value : List Char)
  | other
  deriving DecidableEq, Repr

/-- A line as written, with what it means. -/
structure CounterLine where
  raw : List Char
  kind : LineKind
  deriving DecidableEq, Repr

/-- A counter file, line by line. -/
structure CounterFile where
  lines : List CounterLine := []
  deriving DecidableEq, Repr

/-! ## Reading -/

/-- Why a line has no place in a counter file. -/
inductive LineFault where
  | emptyKey
  | unrecognised (content : List Char)
  deriving DecidableEq, Repr

/-- The first line at fault, counted from 1. -/
structure ParseFault where
  line : Nat
  fault : LineFault
  deriving DecidableEq, Repr

/-- The fault in words. -/
def ParseFault.message (f : ParseFault) : String :=
  "line " ++ toString f.line ++ ": " ++
    match f.fault with
    | .emptyKey => "entry without a key"
    | .unrecognised content => "unrecognised content " ++ Quoted.text (String.ofList content)

/-- The text between brackets, if that is what a text is. -/
def bracketed? : List Char → Option (List Char)
  | '[' :: rest => if rest.getLast? = some ']' then some rest.dropLast else none
  | _ => none

/-- What a line means, by its text without the blanks around it. -/
def LineKind.ofTrimmed (s : List Char) : Except LineFault LineKind :=
  if s = [] ∨ s.head? = some ';' ∨ s.head? = some '#' then .ok .other
  else
    match bracketed? s with
    | some name => .ok (.header (Text.trim name))
    | none =>
      if '=' ∈ s then
        let key := Text.trim (s.takeWhile (· ≠ '='))
        let value := Text.trim ((s.dropWhile (· ≠ '=')).drop 1)
        if key = [] then .error .emptyKey else .ok (.entry key value)
      else .error (.unrecognised s)

/-- A line with its meaning. -/
def CounterLine.ofRaw (raw : List Char) : Except LineFault CounterLine :=
  (LineKind.ofTrimmed (Text.trim raw)).map fun kind => ⟨raw, kind⟩

/-- Lines with their meaning, the first of them being line `number`. -/
def CounterLine.ofRaws (number : Nat) : List (List Char) → Except ParseFault (List CounterLine)
  | [] => .ok []
  | raw :: rest => do
    let line ← (CounterLine.ofRaw raw).mapError fun fault => ⟨number, fault⟩
    let lines ← CounterLine.ofRaws (number + 1) rest
    return line :: lines

/-- The text without the byte-order mark it may start with. -/
def dropMark : List Char → List Char
  | '\uFEFF' :: rest => rest
  | s => s

namespace CounterFile

/-- Reads a counter file. -/
def parse (text : String) : Except ParseFault CounterFile := do
  let lines ← CounterLine.ofRaws 1 (Text.lines (dropMark text.toList))
  return ⟨lines⟩

/-- The text of the file: every line as written, each ended by a line feed. -/
def render (f : CounterFile) : String :=
  String.ofList (Text.unlines (f.lines.map CounterLine.raw))

end CounterFile

/-! ## The version -/

/-- Whether a header opens the section of the version. -/
def opensSection (name : List Char) : Bool :=
  sameIgnoringCase name counterSection.toList

/-- Whether an entry has the key of the version. -/
def isVersionKey (key : List Char) : Bool :=
  sameIgnoringCase key counterKey.toList

/-- The value of the first version entry. `inside` says whether the lines start within its
section. -/
def versionText? (inside : Bool) : List CounterLine → Option (List Char)
  | [] => none
  | line :: rest =>
    match line.kind with
    | .header name => versionText? (opensSection name) rest
    | .entry key value =>
      if inside && isVersionKey key then some value else versionText? inside rest
    | .other => versionText? inside rest

/-- Why a counter file has no version. -/
inductive VersionFault where
  | missing
  | invalid (value : List Char) (fault : Numeral.Fault)
  deriving DecidableEq, Repr

/-- The fault in words. -/
def VersionFault.message : VersionFault → String
  | .missing => "missing [" ++ counterSection ++ "] " ++ counterKey ++ " key"
  | .invalid value fault =>
    "invalid " ++ counterKey ++ " value " ++ Quoted.text (String.ofList value) ++ ": "
      ++ fault.message

/-- An entry line that holds a version. -/
def versionLine (key : List Char) (n : UInt64) : CounterLine :=
  ⟨key ++ '=' :: Numeral.write n, .entry key (Numeral.write n)⟩

/-- The lines with the first version entry rewritten, its key as spelled, if there is one. -/
def rewriteVersion? (n : UInt64) (inside : Bool) : List CounterLine → Option (List CounterLine)
  | [] => none
  | line :: rest =>
    match line.kind with
    | .header name => (rewriteVersion? n (opensSection name) rest).map (line :: ·)
    | .entry key _ =>
      if inside && isVersionKey key then some (versionLine key n :: rest)
      else (rewriteVersion? n inside rest).map (line :: ·)
    | .other => (rewriteVersion? n inside rest).map (line :: ·)

/-- The lines with a new version entry below the first header of its section, if there is one. -/
def insertVersion? (n : UInt64) : List CounterLine → Option (List CounterLine)
  | [] => none
  | line :: rest =>
    match line.kind with
    | .header name =>
      if opensSection name then some (line :: versionLine counterKey.toList n :: rest)
      else (insertVersion? n rest).map (line :: ·)
    | _ => (insertVersion? n rest).map (line :: ·)

/-- The header of the section. -/
def sectionLine : CounterLine :=
  ⟨'[' :: counterSection.toList ++ [']'], .header counterSection.toList⟩

namespace CounterFile

/-- The version the file holds. -/
def version (f : CounterFile) : Except VersionFault UInt64 :=
  match versionText? false f.lines with
  | none => .error .missing
  | some value => (Numeral.read value).mapError (.invalid value)

/-- The file with the version changed: the entry is rewritten where there is one, else added to its
section, else added with its section at the end. -/
def setVersion (f : CounterFile) (n : UInt64) : CounterFile :=
  match rewriteVersion? n false f.lines with
  | some lines => ⟨lines⟩
  | none =>
    match insertVersion? n f.lines with
    | some lines => ⟨lines⟩
    | none => ⟨f.lines ++ [sectionLine, versionLine counterKey.toList n]⟩

end CounterFile

end TreeWatch
