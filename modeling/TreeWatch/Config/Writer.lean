import TreeWatch.Config.Basic
import TreeWatch.Json.Scan

/-!
# Writing a configuration

A configuration as a JSON text, in one of two layouts that differ in blanks only: on one line
without any, or with every item on a line of its own. `Config.write` lists the fields; the layouts
supply what stands around them.
-/

namespace TreeWatch

namespace Json

/-- The escape of a control character without a letter of its own. -/
def controlEscape (c : Char) : List Char :=
  let digits := Nat.toDigits 16 c.toNat
  ['\\', 'u'] ++ List.replicate (4 - digits.length) '0' ++ digits

/-- A character inside a written string. Only the quote, the backslash and control characters are
escaped. -/
def writeChar (c : Char) : List Char :=
  match c with
  | '\x22' => ['\\', '\x22']
  | '\\' => ['\\', '\\']
  | '\x08' => ['\\', 'b']
  | '\t' => ['\\', 't']
  | '\n' => ['\\', 'n']
  | '\x0c' => ['\\', 'f']
  | '\r' => ['\\', 'r']
  | c => if c.toNat < 0x20 then controlEscape c else [c]

/-- A string with its quotes. -/
def writeString (s : List Char) : List Char :=
  '\x22' :: s.flatMap writeChar ++ ['\x22']

/-- How blanks are set: `indented` gives every item its own line, two blanks deeper than the bracket
around it. -/
inductive Layout where
  | compact
  | indented
  deriving DecidableEq, Repr

/-- What comes before an item or closing bracket at the given depth. -/
def Layout.lineBreak : Layout → Nat → List Char
  | .compact, _ => []
  | .indented, depth => '\n' :: List.replicate (2 * depth) ' '

/-- What comes between a key and its value. -/
def Layout.colon : Layout → List Char
  | .compact => [':']
  | .indented => [':', ' ']

/-- Items with commas between them, each on its line. -/
def Layout.items (layout : Layout) (depth : Nat) : List (List Char) → List Char
  | [] => []
  | [item] => layout.lineBreak depth ++ item
  | item :: next :: more =>
    layout.lineBreak depth ++ item ++ ',' :: layout.items depth (next :: more)

/-- Items in brackets. Brackets around nothing stay together. -/
def Layout.bracket (layout : Layout) (depth : Nat) (opening closing : Char)
    (items : List (List Char)) : List Char :=
  if items = [] then [opening, closing]
  else opening :: layout.items (depth + 1) items ++ layout.lineBreak depth ++ [closing]

/-- A list. -/
def Layout.list (layout : Layout) (depth : Nat) (items : List (List Char)) : List Char :=
  layout.bracket depth '[' ']' items

/-- An object, by its keys and written values. -/
def Layout.object (layout : Layout) (depth : Nat) (members : List (List Char × List Char)) :
    List Char :=
  layout.bracket depth '\x7b' '\x7d' <|
    members.map fun (key, value) => writeString key ++ layout.colon ++ value

end Json

namespace Config

/-- The configuration as JSON text. -/
def write (c : Config) (layout : Json.Layout) : String :=
  let dirs := layout.list 2 (c.watch.dirs.map fun dir => Json.writeString dir.spelling.toList)
  let grace := Nat.toDigits 10 c.watch.gracePeriodMs.toNat
  let watch := layout.object 1
    [("dirs".toList, dirs), ("grace_period_ms".toList, grace)]
  String.ofList <| layout.object 0
    [("watch".toList, watch), ("verbose".toList, Nat.toDigits 10 c.verbose.toNat)]

end Config

end TreeWatch
