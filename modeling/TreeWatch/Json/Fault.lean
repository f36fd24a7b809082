import TreeWatch.Text.Quoted
import TreeWatch.Text.Shortest

/-!
# Faults of a JSON text

Why a text is not the JSON that was wanted, and where. A reader sees only what is left of the text,
so a fault is located by how many bytes are unread; `Position.ofUnread` turns that into the line and
column of the whole text.
-/

namespace TreeWatch.Json

/-- What a text holds where something else is wanted. -/
inductive Found where
  | bool (b : Bool)
  | natural (n : Nat)
  /-- The number `-n`. -/
  | negative (n : Nat)
  /-- A floating-point number, by the bits of the double. -/
  | floating (bits : UInt64)
  | string (s : String)
  | null
  | list
  | object
  deriving DecidableEq, Repr

/-- What was found, in words. -/
def Found.message : Found → String
  | .bool true => "boolean `true`"
  | .bool false => "boolean `false`"
  | .natural n => "integer `" ++ toString n ++ "`"
  | .negative n => "integer `-" ++ toString n ++ "`"
  | .floating bits => "floating point `" ++ Shortest.text bits ++ "`"
  | .string s => "string " ++ Quoted.text s
  | .null => "null"
  | .list => "sequence"
  | .object => "map"

/-- Why a text is refused. -/
inductive Cause where
  | endInValue
  | endInString
  | endInList
  | endInObject
  | expectedColon
  | expectedListEnd
  | expectedObjectEnd
  | expectedWord
  | expectedValue
  | invalidEscape
  | invalidNumber
  | numberOutOfRange
  | loneSurrogate
  | cutSurrogatePair
  | controlCharacter
  | keyNotString
  | trailingComma
  | trailingCharacters
  | duplicateField (name : String)
  /-- A value of another kind than the wanted one. -/
  | wrongType (found : Found) (wanted : String)
  /-- A value of the wanted kind, out of its range. -/
  | wrongValue (found : Found) (wanted : String)
  deriving DecidableEq, Repr

/-- The cause in words. -/
def Cause.message : Cause → String
  | .endInValue => "EOF while parsing a value"
  | .endInString => "EOF while parsing a string"
  | .endInList => "EOF while parsing a list"
  | .endInObject => "EOF while parsing an object"
  | .expectedColon => "expected `:`"
  | .expectedListEnd => "expected `,` or `]`"
  | .expectedObjectEnd => "expected `,` or `\x7d`"
  | .expectedWord => "expected ident"
  | .expectedValue => "expected value"
  | .invalidEscape => "invalid escape"
  | .invalidNumber => "invalid number"
  | .numberOutOfRange => "number out of range"
  | .loneSurrogate => "lone leading surrogate in hex escape"
  | .cutSurrogatePair => "unexpected end of hex escape"
  | .controlCharacter => "control character (\\u0000-\\u001F) found while parsing a string"
  | .keyNotString => "key must be a string"
  | .trailingComma => "trailing comma"
  | .trailingCharacters => "trailing characters"
  | .duplicateField name => "duplicate field `" ++ name ++ "`"
  | .wrongType found wanted => "invalid type: " ++ found.message ++ ", expected " ++ wanted
  | .wrongValue found wanted => "invalid value: " ++ found.message ++ ", expected " ++ wanted

/-- A cause, and how many bytes of the text lie behind the place it is reported at. -/
structure Fault where
  cause : Cause
  unread : Nat
  deriving DecidableEq, Repr

/-- A fault at the first unread character. -/
def Fault.at (cause : Cause) (rest : List Char) : Fault :=
  ⟨cause, Utf8.byteSize rest⟩

/-- A fault one byte past that, as it is reported for a character that was looked at and not taken.
At the end of the text there is no byte to pass. -/
def Fault.past (cause : Cause) (rest : List Char) : Fault :=
  ⟨cause, Utf8.byteSize rest - 1⟩

/-- A place in a text: its line, from 1, and how many bytes of that line come before it. -/
structure Position where
  line : Nat
  column : Nat
  deriving DecidableEq, Repr

/-- The place after a byte sequence. -/
def Position.after (bytes : List UInt8) : Position :=
  bytes.foldl (fun p b => if b = 10 then ⟨p.line + 1, 0⟩ else ⟨p.line, p.column + 1⟩) ⟨1, 0⟩

/-- The place in a text that leaves the given number of bytes unread. -/
def Position.ofUnread (text : List Char) (unread : Nat) : Position :=
  let bytes := Utf8.encode text
  .after (bytes.take (bytes.length - unread))

/-- A fault of a whole text. -/
structure Refusal where
  cause : Cause
  position : Position
  deriving DecidableEq, Repr

/-- The fault with its place in the text. -/
def Fault.locate (f : Fault) (text : List Char) : Refusal :=
  ⟨f.cause, .ofUnread text f.unread⟩

/-- The refusal in words. -/
def Refusal.message (r : Refusal) : String :=
  r.cause.message ++ " at line " ++ toString r.position.line ++ " column "
    ++ toString r.position.column

end TreeWatch.Json
