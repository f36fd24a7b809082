import TreeWatch.Text.Quoted

/-!
# Byte strings

What the system hands out as a file name, a link target, an argument or the contents of a file:
bytes that usually spell text and need not. A byte string is kept as text whenever it is UTF-8, so
that two byte strings are the same bytes exactly when they are equal, and text needs no decoding
to be read back.
-/

namespace TreeWatch

/-- A sequence of bytes: a text, or bytes that are not UTF-8. -/
inductive ByteString where
  | text (s : String)
  | raw (bytes : List UInt8) (notText : Utf8.decode? bytes = none)
  deriving DecidableEq

namespace ByteString

instance : Inhabited ByteString :=
  ⟨.text ""⟩

/-- The byte string holding the given bytes. -/
def ofBytes (bytes : List UInt8) : ByteString :=
  match h : Utf8.decode? bytes with
  | some s => .text s
  | none => .raw bytes h

/-- The bytes themselves. -/
def bytes : ByteString → List UInt8
  | .text s => Utf8.encode s.toList
  | .raw bytes _ => bytes

/-- The text, if the bytes are UTF-8. -/
def text? : ByteString → Option String
  | .text s => some s
  | .raw _ _ => none

/-- How many bytes there are. -/
def size : ByteString → Nat
  | .text s => s.utf8ByteSize
  | .raw bytes _ => bytes.length

/-- The text to show: broken stretches appear as the replacement character. -/
def display : ByteString → String
  | .text s => s
  | .raw bytes _ => Utf8.lossy bytes

/-- The byte string between quotes, every byte visible. -/
def quoted (b : ByteString) : String :=
  Quoted.bytes b.bytes

/-- The first `n` bytes. -/
def take (n : Nat) (b : ByteString) : ByteString :=
  ofBytes (b.bytes.take n)

/-- The order by bytes. -/
def before (a b : ByteString) : Bool :=
  decide (a.bytes < b.bytes)

end ByteString

end TreeWatch
