import TreeWatch.Json.Fault

/-!
# Scanning JSON

The parts every reader of JSON shares: blanks, words, strings and their escapes, the separators of
lists and objects. Each scanner takes what is left of the text and returns what it read with what
is left then.

A string is read in two ways. `readString` decodes it and insists that escapes of surrogates come in
pairs; `skipString` only finds its end.
-/

namespace TreeWatch.Json

/-- A value with the text left behind it. -/
abbrev Scanned (α : Type) : Type :=
  α × List Char

/-- What takes a value from the start of a text. -/
abbrev Reader (α : Type) : Type :=
  List Char → Except Fault (Scanned α)

/-- The four blanks of JSON. -/
def isBlank (c : Char) : Bool :=
  c == ' ' || c == '\n' || c == '\t' || c == '\r'

/-- The text from its first character that is not blank. -/
def skipBlanks (s : List Char) : List Char :=
  s.dropWhile isBlank

/-- The rest of a word of which the first letter is taken. -/
def word : List Char → List Char → Except Fault (List Char)
  | [], s => .ok s
  | _ :: _, [] => .error (.at .endInValue [])
  | expected :: more, c :: rest =>
    if c = expected then word more rest else .error (.past .expectedWord (c :: rest))

/-! ## Strings -/

/-- The value of a hexadecimal digit. -/
def hexDigit? (c : Char) : Option Nat :=
  let n := c.toNat
  if 0x30 ≤ n ∧ n ≤ 0x39 then some (n - 0x30)
  else if 0x61 ≤ n ∧ n ≤ 0x66 then some (n - 0x61 + 10)
  else if 0x41 ≤ n ∧ n ≤ 0x46 then some (n - 0x41 + 10)
  else none

/-- The value of four hexadecimal digits. -/
def hex4? (a b c d : Char) : Option Nat := do
  let a ← hexDigit? a
  let b ← hexDigit? b
  let c ← hexDigit? c
  let d ← hexDigit? d
  return ((a * 16 + b) * 16 + c) * 16 + d

/-- The fault of an escape whose four bytes are no digits: it is reported behind them, or, where
fewer are left, as the end of the text. -/
def badHex (rest : List Char) : Fault :=
  let left := Utf8.byteSize rest
  if 4 ≤ left then ⟨.invalidEscape, left - 4⟩ else ⟨.endInString, 0⟩

/-- The character of a one-letter escape. -/
def letterEscape? : Char → Option Char
  | '\x22' => some '\x22'
  | '\\' => some '\\'
  | '/' => some '/'
  | 'b' => some '\x08'
  | 'f' => some '\x0c'
  | 'n' => some '\n'
  | 'r' => some '\r'
  | 't' => some '\t'
  | _ => none

/-- Whether a 16-bit unit is the first half of a pair. -/
def isLeading (n : Nat) : Bool :=
  0xD800 ≤ n && n ≤ 0xDBFF

/-- Whether a 16-bit unit is the second half of a pair. -/
def isTrailing (n : Nat) : Bool :=
  0xDC00 ≤ n && n ≤ 0xDFFF

/-- The character of a pair of halves. -/
def pairChar (lead trail : Nat) : Char :=
  Char.ofNat ((lead - 0xD800) * 0x400 + (trail - 0xDC00) + 0x10000)

/-- Puts a character in front of a scanned string. -/
def consChar (c : Char) (tail : Except Fault (Scanned (List Char))) :
    Except Fault (Scanned (List Char)) :=
  tail.map fun (s, rest) => (c :: s, rest)

/-- A string whose opening quote is taken, decoded, up to and with its closing quote. -/
def readString : Reader (List Char)
  | [] => .error (.at .endInString [])
  | c :: rest =>
    if c = '\x22' then .ok ([], rest)
    else if c = '\\' then
      match rest with
      | [] => .error (.at .endInString [])
      | letter :: tail =>
        if letter = 'u' then
          match tail with
          | h1 :: h2 :: h3 :: h4 :: after =>
            match hex4? h1 h2 h3 h4 with
            | none => .error (badHex (h1 :: h2 :: h3 :: h4 :: after))
            | some unit =>
              if isTrailing unit then .error (.at .loneSurrogate after)
              else if isLeading unit then
                match after with
                | [] => .error (.at .endInString [])
                | slash :: more =>
                  if slash = '\\' then
                    match more with
                    | [] => .error (.at .endInString [])
                    | mark :: digits =>
                      if mark = 'u' then
                        match digits with
                        | t1 :: t2 :: t3 :: t4 :: behind =>
                          match hex4? t1 t2 t3 t4 with
                          | none => .error (badHex (t1 :: t2 :: t3 :: t4 :: behind))
                          | some second =>
                            if isTrailing second then
                              consChar (pairChar unit second) (readString behind)
                            else .error (.at .loneSurrogate behind)
                        | few => .error (badHex few)
                      else .error (.past .cutSurrogatePair (mark :: digits))
                  else .error (.past .cutSurrogatePair (slash :: more))
              else consChar (Char.ofNat unit) (readString after)
          | few => .error (badHex few)
        else
          match letterEscape? letter with
          | some d => consChar d (readString tail)
          | none => .error (.past .invalidEscape (letter :: tail))
    else if c.toNat < 0x20 then .error (.past .controlCharacter (c :: rest))
    else consChar c (readString rest)

/-- A string whose opening quote is taken, up to and with its closing quote. -/
def skipString : List Char → Except Fault (List Char)
  | [] => .error (.at .endInString [])
  | c :: rest =>
    if c = '\x22' then .ok rest
    else if c = '\\' then
      match rest with
      | [] => .error (.at .endInString [])
      | letter :: tail =>
        if letter = 'u' then
          match tail with
          | h1 :: h2 :: h3 :: h4 :: after =>
            match hex4? h1 h2 h3 h4 with
            | none => .error (badHex (h1 :: h2 :: h3 :: h4 :: after))
            | some _ => skipString after
          | few => .error (badHex few)
        else
          match letterEscape? letter with
          | some _ => skipString tail
          | none => .error (.past .invalidEscape (letter :: tail))
    else if c.toNat < 0x20 then .error (.at .controlCharacter (c :: rest))
    else skipString rest

/-! ## Separators -/

/-- The text behind the colon of a member. -/
def colon (s : List Char) : Except Fault (List Char) :=
  match skipBlanks s with
  | [] => .error (.at .endInObject [])
  | ':' :: rest => .ok rest
  | rest => .error (.past .expectedColon rest)

/-- Where the next item of a list starts, or `none` at the closing bracket. -/
def nextItem (first : Bool) (s : List Char) : Except Fault (Option (List Char)) :=
  match skipBlanks s with
  | [] => .error (.at .endInList [])
  | ']' :: _ => .ok none
  | ',' :: rest =>
    if first then .ok (some (',' :: rest))
    else
      match skipBlanks rest with
      | [] => .error (.at .endInValue [])
      | ']' :: after => .error (.past .trailingComma (']' :: after))
      | item => .ok (some item)
  | item => if first then .ok (some item) else .error (.past .expectedListEnd item)

/-- The text behind the closing bracket of a list of which no more items are wanted. -/
def endList (s : List Char) : Except Fault (List Char) :=
  match skipBlanks s with
  | [] => .error (.at .endInList [])
  | ']' :: rest => .ok rest
  | ',' :: rest =>
    match skipBlanks rest with
    | ']' :: after => .error (.past .trailingComma (']' :: after))
    | after => .error (.past .trailingCharacters after)
  | rest => .error (.past .trailingCharacters rest)

/-- The text behind the opening quote of the next key of an object, or `none` at the closing
brace. -/
def nextKey (first : Bool) (s : List Char) : Except Fault (Option (List Char)) :=
  match skipBlanks s with
  | [] => .error (.at .endInObject [])
  | '\x7d' :: _ => .ok none
  | c :: rest =>
    if first then
      if c = '\x22' then .ok (some rest) else .error (.past .keyNotString (c :: rest))
    else if c = ',' then
      match skipBlanks rest with
      | [] => .error (.at .endInValue [])
      | '\x22' :: key => .ok (some key)
      | '\x7d' :: after => .error (.past .trailingComma ('\x7d' :: after))
      | other => .error (.past .keyNotString other)
    else .error (.past .expectedObjectEnd (c :: rest))

end TreeWatch.Json
