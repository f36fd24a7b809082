/-!
# Numerals

Whole numbers from 0 to `2^64 - 1` in decimal. Writing gives the digits and nothing else; reading
also takes leading zeros and one plus sign, and says why it refuses anything else.
-/

namespace TreeWatch.Numeral

/-- Why a text is no numeral. -/
inductive Fault where
  | empty
  | invalidDigit
  | tooLarge
  deriving DecidableEq, Repr

/-- The fault in words. -/
def Fault.message : Fault → String
  | .empty => "cannot parse integer from empty string"
  | .invalidDigit => "invalid digit found in string"
  | .tooLarge => "number too large to fit in target type"

/-- The digits of a number, most significant first. -/
def write (n : UInt64) : List Char :=
  Nat.toDigits 10 n.toNat

/-- The value of the digits, read from the left on top of what was read before. The first character
that is no digit, or the first digit that takes the value out of range, decides the fault. -/
def readDigits (value : Nat) : List Char → Except Fault UInt64
  | [] => .ok (UInt64.ofNat value)
  | c :: rest =>
    if c.isDigit then
      let next := value * 10 + (c.toNat - '0'.toNat)
      if next < UInt64.size then readDigits next rest else .error .tooLarge
    else .error .invalidDigit

/-- Reads a numeral. A sign alone is a wrong digit, not an empty numeral. -/
def read : List Char → Except Fault UInt64
  | [] => .error .empty
  | ['+'] => .error .invalidDigit
  | '+' :: rest => readDigits 0 rest
  | digits => readDigits 0 digits

end TreeWatch.Numeral
