import TreeWatch.Json.Number

/-!
# Passing over a JSON value

A member nobody asked for is passed over, however deep it nests; it only has to be a value. The
recursion is bounded by twice the length of the text: every second call takes a character.
-/

namespace TreeWatch.Json

/-- What is passed over next: a value, the items of a list that is open, or the members of an
object that is open. `first` says that none was passed yet. -/
inductive Pending where
  | value
  | items (first : Bool)
  | members (first : Bool)

/-- Passes over a value, or over the rest of a list or object with its closing bracket. -/
def skip : Nat → Pending → List Char → Except Fault (List Char)
  | 0, _, s => .error (.at .endInValue s)
  | fuel + 1, .value, s =>
    match skipBlanks s with
    | [] => .error (.at .endInValue [])
    | 'n' :: rest => word ['u', 'l', 'l'] rest
    | 't' :: rest => word ['r', 'u', 'e'] rest
    | 'f' :: rest => word ['a', 'l', 's', 'e'] rest
    | '-' :: rest => skipNumber rest
    | '\x22' :: rest => skipString rest
    | '[' :: rest => skip fuel (.items true) rest
    | '\x7b' :: rest => skip fuel (.members true) rest
    | c :: rest =>
      if c.isDigit then skipNumber (c :: rest) else .error (.past .expectedValue (c :: rest))
  | fuel + 1, .items first, s =>
    match skipBlanks s with
    | [] => .error (.at .endInList [])
    | ']' :: rest => .ok rest
    | c :: rest =>
      if first then do
        let after ← skip fuel .value (c :: rest)
        skip fuel (.items false) after
      else if c = ',' then do
        let after ← skip fuel .value rest
        skip fuel (.items false) after
      else .error (.past .expectedListEnd (c :: rest))
  | fuel + 1, .members first, s =>
    match skipBlanks s with
    | [] => .error (.at .endInObject [])
    | '\x7d' :: rest => .ok rest
    | c :: rest =>
      if first ∨ c = ',' then
        match (if first then c :: rest else skipBlanks rest) with
        | [] => .error (.at .endInObject [])
        | '\x22' :: key => do
          let after ← skipString key
          let behind ← colon after
          let tail ← skip fuel .value behind
          skip fuel (.members false) tail
        | other => .error (.past .keyNotString other)
      else .error (.past .expectedObjectEnd (c :: rest))

/-- Passes over one value. -/
def skipValue (s : List Char) : Except Fault (List Char) :=
  skip (2 * s.length + 1) .value s

end TreeWatch.Json
