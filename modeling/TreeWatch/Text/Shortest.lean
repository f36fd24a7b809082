/-!
# The shortest decimal of a floating-point number

A double stands for all the reals that round to it. `shortest` finds, among the decimals in that
range, one with the fewest digits, and of those the nearest to the double. It looks at the grids of
1, 2, … 17 digits in turn: if a grid has a point in the range, one of the two grid points around the
double lies in it.

All arithmetic is exact, on natural numbers.
-/

namespace TreeWatch.Shortest

/-- A finite double without its sign, as `mantissa * 2 ^ exponent`. `narrow` says that the next
smaller double is only half as far away as the next larger one. -/
structure Binary where
  mantissa : Nat
  exponent : Int
  narrow : Bool

/-- Reads the fields of a double's bits. -/
def Binary.ofBits (bits : UInt64) : Binary :=
  let fraction : Nat := bits.toNat % Nat.pow 2 52
  let biased : Nat := bits.toNat / Nat.pow 2 52 % Nat.pow 2 11
  if biased = 0 then ⟨fraction, -1074, false⟩
  else ⟨Nat.pow 2 52 + fraction, Int.ofNat biased - 1075, fraction = 0 && biased ≠ 1⟩

/-- Whether the sign bit is set. -/
def isNegative (bits : UInt64) : Bool :=
  Nat.pow 2 63 ≤ bits.toNat

/-- The range of reals that round to a double, scaled by a common denominator: the double itself,
the ends, and whether they belong to the range, which they do for an even mantissa. -/
structure Range where
  value : Nat
  low : Nat
  high : Nat
  denominator : Nat
  closed : Bool

/-- The range of a double. In quarters of the last place the value is `4 * mantissa` and the ends
are two away, or one on the narrow side. -/
def Binary.range (b : Binary) : Range :=
  let quarters := 4 * b.mantissa
  let low := quarters - (if b.narrow then 1 else 2)
  let high := quarters + 2
  let shift := b.exponent - 2
  let factor := Nat.pow 2 shift.toNat
  ⟨quarters * factor, low * factor, high * factor, Nat.pow 2 (-shift).toNat, b.mantissa % 2 = 0⟩

/-- Whether `digits * 10 ^ scale` lies in the range. -/
def Range.holds (r : Range) (digits : Nat) (scale : Int) : Bool :=
  let point := digits * Nat.pow 10 scale.toNat * r.denominator
  let unit := Nat.pow 10 (-scale).toNat
  if r.closed then r.low * unit ≤ point && point ≤ r.high * unit
  else r.low * unit < point && point < r.high * unit

/-- Twice the distance of the value to the lower of two neighbouring grid points, less one grid
step: negative if the lower point is nearer, zero at a tie. -/
def Range.tilt (r : Range) (digits : Nat) (scale : Int) : Int :=
  let unit := Nat.pow 10 (-scale).toNat
  let step := Nat.pow 10 scale.toNat * r.denominator
  2 * ((r.value * unit : Nat) - (digits * step : Nat) : Int) - step

/-- The decimal exponent of the leading digit: how often ten divides into the value, or, below one,
how often it has to be multiplied in. -/
def Range.magnitude (r : Range) : Int :=
  let whole := r.value / r.denominator
  if 0 < whole then (Nat.toDigits 10 whole).length - 1
  else
    match (List.range 400).find? fun k => r.denominator ≤ r.value * Nat.pow 10 k with
    | some k => -(k : Int)
    | none => 0

/-- The grid point in the range, on the grid whose unit is `10 ^ scale`, if there is one. Of two the
nearer is taken, at a tie the even one. -/
def Range.onGrid? (r : Range) (scale : Int) : Option Nat :=
  let below := r.value * Nat.pow 10 (-scale).toNat / (r.denominator * Nat.pow 10 scale.toNat)
  match r.holds below scale, r.holds (below + 1) scale with
  | true, true =>
    let tilt := r.tilt below scale
    if tilt < 0 then some below
    else if 0 < tilt then some (below + 1)
    else some (if below % 2 = 0 then below else below + 1)
  | true, false => some below
  | false, true => some (below + 1)
  | false, false => none

/-- Digits without trailing zeros, and the exponent that makes up for them. -/
def stripZeros : Nat → Nat → Int → Nat × Int
  | 0, digits, scale => (digits, scale)
  | fuel + 1, digits, scale =>
    if digits ≠ 0 ∧ digits % 10 = 0 then stripZeros fuel (digits / 10) (scale + 1)
    else (digits, scale)

/-- The shortest decimal `digits * 10 ^ scale` of a double that is not zero. -/
def shortest (b : Binary) : Nat × Int :=
  let r := b.range
  let top := r.magnitude
  let grids := (List.range 17).map fun k => top - Int.ofNat k
  match grids.findSome? fun scale => (r.onGrid? scale).map (·, scale) with
  | some (digits, scale) => stripZeros 20 digits scale
  | none => (b.mantissa, 0)

/-! ## The written form -/

/-- The fraction digits of scientific notation, with their point. -/
def fraction (digits : List Char) : List Char :=
  if digits = [] then [] else '.' :: digits

/-- A decimal written out: with a point where its leading digit is between the sixteenth place
before and the fifth place after the point, in scientific notation elsewhere. -/
def layout (digits : List Char) (scale : Int) : List Char :=
  let leading := scale + digits.length - 1
  if 16 ≤ leading then
    digits.take 1 ++ fraction (digits.drop 1) ++ ['e', '+'] ++ Nat.toDigits 10 leading.toNat
  else if leading < -5 then
    digits.take 1 ++ fraction (digits.drop 1) ++ ['e', '-'] ++ Nat.toDigits 10 (-leading).toNat
  else if 0 ≤ scale then
    digits ++ List.replicate scale.toNat '0' ++ ['.', '0']
  else if 0 ≤ leading then
    digits.take (leading.toNat + 1) ++ ['.'] ++ digits.drop (leading.toNat + 1)
  else
    ['0', '.'] ++ List.replicate (-leading - 1).toNat '0' ++ digits

/-- The shortest text that reads back as the finite double with the given bits. -/
def text (bits : UInt64) : String :=
  let sign := if isNegative bits then ['-'] else []
  let b := Binary.ofBits bits
  if b.mantissa = 0 then String.ofList (sign ++ ['0', '.', '0'])
  else
    let (digits, scale) := shortest b
    String.ofList (sign ++ layout (Nat.toDigits 10 digits) scale)

end TreeWatch.Shortest
