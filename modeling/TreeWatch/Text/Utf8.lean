/-!
# UTF-8

Byte sequences read as text. `chunks` splits any sequence into the characters it spells and the
stretches that spell none; the other readings follow from it:

* `decode?` — the text, when every byte belongs to a character;
* `lossy` — always a text, with one replacement character for each broken stretch.

A broken stretch is the longest start of a character that its next byte cuts short, so a sequence
that stops in the middle of a character gives one stretch, and a byte that starts no character is
a stretch by itself.
-/

namespace TreeWatch.Utf8

/-! ## Encoding -/

/-- The bytes of a text. -/
def encode (s : List Char) : List UInt8 :=
  s.flatMap String.utf8EncodeChar

/-- How many bytes a text takes. -/
def byteSize (s : List Char) : Nat :=
  (encode s).length

/-! ## Decoding -/

/-- A character, or a stretch of bytes that spells none. -/
inductive Chunk where
  | char (c : Char)
  | broken (bytes : List UInt8)
  deriving DecidableEq, Repr

/-- A character of which some bytes are still to come: how many, the range the next one must lie
in, the bits read so far and the bytes they came from, last one first. -/
structure Begun where
  owed : Nat
  low : UInt8
  high : UInt8
  bits : Nat
  seen : List UInt8

/-- What a byte does at the start of a character: it is one, it begins one, or it is out of place.
The ranges of the second byte leave out overlong forms, surrogates and values above `0x10FFFF`. -/
def start (b : UInt8) : Chunk ⊕ Begun :=
  let n := b.toNat
  if n ≤ 0x7F then .inl (.char (Char.ofNat n))
  else if 0xC2 ≤ n ∧ n ≤ 0xDF then .inr ⟨1, 0x80, 0xBF, n % 0x20, [b]⟩
  else if n = 0xE0 then .inr ⟨2, 0xA0, 0xBF, 0, [b]⟩
  else if n = 0xED then .inr ⟨2, 0x80, 0x9F, 0xD, [b]⟩
  else if 0xE1 ≤ n ∧ n ≤ 0xEF then .inr ⟨2, 0x80, 0xBF, n % 0x10, [b]⟩
  else if n = 0xF0 then .inr ⟨3, 0x90, 0xBF, 0, [b]⟩
  else if 0xF1 ≤ n ∧ n ≤ 0xF3 then .inr ⟨3, 0x80, 0xBF, n % 8, [b]⟩
  else if n = 0xF4 then .inr ⟨3, 0x80, 0x8F, 4, [b]⟩
  else .inl (.broken [b])

/-- The stretch that a character cut short leaves behind. -/
def Begun.cut (p : Begun) : Chunk :=
  .broken p.seen.reverse

/-- The character with one more byte, or complete. -/
def Begun.extend (p : Begun) (b : UInt8) : Chunk ⊕ Begun :=
  let bits := p.bits * 0x40 + b.toNat % 0x40
  if p.owed ≤ 1 then .inl (.char (Char.ofNat bits))
  else .inr ⟨p.owed - 1, 0x80, 0xBF, bits, b :: p.seen⟩

/-- The chunks of a sequence, from the middle of a character or from between characters. -/
def chunksFrom : Option Begun → List UInt8 → List Chunk
  | none, [] => []
  | some p, [] => [p.cut]
  | none, b :: rest =>
    match start b with
    | .inl chunk => chunk :: chunksFrom none rest
    | .inr p => chunksFrom (some p) rest
  | some p, b :: rest =>
    if p.low ≤ b ∧ b ≤ p.high then
      match p.extend b with
      | .inl chunk => chunk :: chunksFrom none rest
      | .inr p => chunksFrom (some p) rest
    else
      match start b with
      | .inl chunk => p.cut :: chunk :: chunksFrom none rest
      | .inr q => p.cut :: chunksFrom (some q) rest

/-- A sequence as characters and broken stretches, in order. -/
def chunks (bytes : List UInt8) : List Chunk :=
  chunksFrom none bytes

/-- The character of a chunk that is one. -/
def Chunk.char? : Chunk → Option Char
  | .char c => some c
  | .broken _ => none

/-- The text a sequence spells, if all of it is text. -/
def decode? (bytes : List UInt8) : Option String :=
  ((chunks bytes).mapM Chunk.char?).map String.ofList

/-- The character shown where bytes spell none. -/
def replacement : Char :=
  '\uFFFD'

/-- The text of a sequence with each broken stretch replaced by one replacement character. -/
def lossy (bytes : List UInt8) : String :=
  String.ofList ((chunks bytes).map fun chunk => chunk.char?.getD replacement)

end TreeWatch.Utf8
