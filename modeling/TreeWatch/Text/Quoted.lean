import TreeWatch.Text.Unprintable
import TreeWatch.Text.Utf8

/-!
# Quoted text

How a text is shown inside a message: between double quotes, with an escape for each character that
would end the quotation, break the line or not be seen. Tab, carriage return, line feed and NUL have
short escapes, all others are written by their code point.

Text that came as bytes is shown the same way, except that a byte belonging to no character is
written by its value and that the single quote is escaped too.
-/

namespace TreeWatch.Quoted

/-- A digit of a code point in an escape, in lower case. -/
def hexLower (n : Nat) : List Char :=
  Nat.toDigits 16 n

/-- The escape that names a character by its code point. -/
def codePoint (c : Char) : List Char :=
  ['\\', 'u', '\x7b'] ++ hexLower c.toNat ++ ['\x7d']

/-- A character as it stands between the quotes. -/
def char (c : Char) : List Char :=
  match c with
  | '\x00' => ['\\', '0']
  | '\t' => ['\\', 't']
  | '\n' => ['\\', 'n']
  | '\r' => ['\\', 'r']
  | '\x22' => ['\\', '\x22']
  | '\\' => ['\\', '\\']
  | c => if Unprintable.holds c then codePoint c else [c]

/-- A text between double quotes. -/
def text (s : String) : String :=
  String.ofList (['\x22'] ++ s.toList.flatMap char ++ ['\x22'])

/-- A byte that belongs to no character: two digits in upper case. -/
def byte (b : UInt8) : List Char :=
  let digits := (Nat.toDigits 16 b.toNat).map Char.toUpper
  ['\\', 'x'] ++ List.replicate (2 - digits.length) '0' ++ digits

/-- A chunk of bytes between the quotes. -/
def chunk : Utf8.Chunk → List Char
  | .char '\x27' => ['\\', '\x27']
  | .char c => char c
  | .broken bytes => bytes.flatMap byte

/-- A byte sequence between double quotes. -/
def bytes (bs : List UInt8) : String :=
  String.ofList (['\x22'] ++ (Utf8.chunks bs).flatMap chunk ++ ['\x22'])

/-- Items in brackets, separated by a comma and a space. -/
def list (items : List String) : String :=
  "[" ++ ", ".intercalate items ++ "]"

end TreeWatch.Quoted
