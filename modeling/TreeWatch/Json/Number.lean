import TreeWatch.Json.Scan

/-!
# Numbers in JSON

A number is read as a whole number where it is written as one and fits 64 bits, and as a double
otherwise; `-0` has no whole reading and is a double too. The double is the significand, of which
only as many digits count as fit 64 bits, multiplied or divided by a power of ten.
-/

namespace TreeWatch.Json

/-- A number as read. -/
inductive Number where
  | natural (n : Nat)
  /-- The number `-n`, with `n` not zero. -/
  | negative (n : Nat)
  | floating (bits : UInt64)
  deriving DecidableEq, Repr

/-- What a number is when something else is wanted. -/
def Number.found : Number → Found
  | .natural n => .natural n
  | .negative n => .negative n
  | .floating bits => .floating bits

/-- The value of a decimal digit. -/
def digitValue (c : Char) : Nat :=
  c.toNat - '0'.toNat

/-- Adds digits to a value for as long as it stays within a limit; what is left starts with the
first digit too many, or with no digit. -/
def accumulate (limit : Nat) (value : Nat) : List Char → Nat × List Char
  | [] => (value, [])
  | c :: rest =>
    if c.isDigit then
      let next := value * 10 + digitValue c
      if next ≤ limit then accumulate limit next rest else (value, c :: rest)
    else (value, c :: rest)

/-- The largest significand and the largest exponent. -/
def maxSignificand : Nat :=
  UInt64.size - 1

/-- The largest exponent that is taken at its word. -/
def maxExponent : Nat :=
  Nat.pow 2 31 - 1

/-! ## Doubles -/

/-- A power of ten as a double. -/
def power (n : Nat) : Float :=
  Float.ofScientific 1 false n

/-- Divides by a power of ten, in steps of at most `10 ^ 308`. Three such steps take any significand
to zero, so the count of steps is no limit. -/
def divide : Nat → Float → Nat → Float
  | 0, x, _ => x
  | steps + 1, x, n =>
    if n ≤ 308 then x / power n
    else if x == 0.0 then x
    else divide steps (x / power 308) (n - 308)

/-- The double with the given sign, significand and power of ten. A value that is too large is a
fault at `rest`. -/
def assemble (negative : Bool) (significand : Nat) (exponent : Int) (rest : List Char) :
    Except Fault (Scanned Number) :=
  let x := (UInt64.ofNat significand).toFloat
  let signed (y : Float) : Except Fault (Scanned Number) :=
    .ok (.floating (if negative then -y else y).toBits, rest)
  if exponent < 0 then signed (divide 8 x exponent.natAbs)
  else if exponent ≤ 308 then
    let y := x * power exponent.natAbs
    if y.isInf then .error (.at .numberOutOfRange rest) else signed y
  else if x == 0.0 then signed x
  else .error (.at .numberOutOfRange rest)

/-- The exponent of a number, behind its `e`, on top of the power of ten that the digits before it
have already. -/
def exponent (negative : Bool) (significand : Nat) (base : Int) (s : List Char) :
    Except Fault (Scanned Number) :=
  let (down, s) : Bool × List Char :=
    match s with
    | '+' :: rest => (false, rest)
    | '-' :: rest => (true, rest)
    | s => (false, s)
  match s with
  | [] => .error (.at .endInValue [])
  | c :: rest =>
    if c.isDigit then
      match accumulate maxExponent (digitValue c) rest with
      | (value, digit :: rest') =>
        if digit.isDigit then
          if significand ≠ 0 ∧ ¬ down then .error (.at .numberOutOfRange rest')
          else assemble negative 0 0 (rest'.dropWhile Char.isDigit)
        else assemble negative significand (if down then base - value else base + value)
          (digit :: rest')
      | (value, []) =>
        assemble negative significand (if down then base - value else base + value) []
    else .error (.past .invalidNumber (c :: rest))

/-- What may follow the digits of a number that is no whole number. -/
def afterDigits (negative : Bool) (significand : Nat) (base : Int) (s : List Char) :
    Except Fault (Scanned Number) :=
  match s with
  | 'e' :: rest | 'E' :: rest => exponent negative significand base rest
  | s => assemble negative significand base s

/-- The digits behind the point. Those that no longer fit the significand are passed over. -/
def decimals (negative : Bool) (significand : Nat) (base : Int) (s : List Char) :
    Except Fault (Scanned Number) :=
  let (value, rest) := accumulate maxSignificand significand s
  let places := s.length - rest.length
  if (rest.head?.any Char.isDigit) then
    afterDigits negative value (base - places) (rest.dropWhile Char.isDigit)
  else if places = 0 then
    match rest with
    | [] => .error (.at .endInValue [])
    | rest => .error (.past .invalidNumber rest)
  else afterDigits negative value (base - places) rest

/-- The whole number, or what follows its digits. -/
def wholeOr (negative : Bool) (significand : Nat) (s : List Char) :
    Except Fault (Scanned Number) :=
  match s with
  | '.' :: rest => decimals negative significand 0 rest
  | 'e' :: rest | 'E' :: rest => exponent negative significand 0 rest
  | s =>
    if ¬ negative then .ok (.natural significand, s)
    else if significand = 0 ∨ Nat.pow 2 63 < significand then assemble true significand 0 s
    else .ok (.negative significand, s)

/-- A number from its first digit on. -/
def readNumber (negative : Bool) (s : List Char) : Except Fault (Scanned Number) :=
  match s with
  | [] => .error (.at .endInValue [])
  | '0' :: rest =>
    if rest.head?.any Char.isDigit then .error (.past .invalidNumber rest)
    else wholeOr negative 0 rest
  | c :: rest =>
    if c.isDigit then
      let (value, more) := accumulate maxSignificand (digitValue c) rest
      if more.head?.any Char.isDigit then
        let after := more.dropWhile Char.isDigit
        let dropped := more.length - after.length
        match after with
        | '.' :: fraction => decimals negative value dropped fraction
        | after => afterDigits negative value dropped after
      else wholeOr negative value more
    else .error (.past .invalidNumber (c :: rest))

/-! ## Numbers to pass over -/

/-- The exponent of a number, behind its `e`. -/
def skipExponent (s : List Char) : Except Fault (List Char) :=
  let s :=
    match s with
    | '+' :: rest => rest
    | '-' :: rest => rest
    | s => s
  match s with
  | [] => .error (.at .invalidNumber [])
  | c :: rest =>
    if c.isDigit then .ok (rest.dropWhile Char.isDigit)
    else .error (.past .invalidNumber (c :: rest))

/-- The digits behind the point, and what follows them. -/
def skipDecimals (s : List Char) : Except Fault (List Char) :=
  if s.head?.any Char.isDigit then
    match s.dropWhile Char.isDigit with
    | 'e' :: rest | 'E' :: rest => skipExponent rest
    | rest => .ok rest
  else .error (.past .invalidNumber s)

/-- What follows the whole part of a number. -/
def skipFraction (s : List Char) : Except Fault (List Char) :=
  match s with
  | '.' :: rest => skipDecimals rest
  | 'e' :: rest | 'E' :: rest => skipExponent rest
  | s => .ok s

/-- A number from its first digit on. -/
def skipNumber (s : List Char) : Except Fault (List Char) :=
  match s with
  | [] => .error (.at .invalidNumber [])
  | '0' :: rest =>
    if rest.head?.any Char.isDigit then .error (.past .invalidNumber rest) else skipFraction rest
  | c :: rest =>
    if c.isDigit then skipFraction (rest.dropWhile Char.isDigit)
    else .error (.past .invalidNumber (c :: rest))

end TreeWatch.Json
