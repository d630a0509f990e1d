namespace PathData

-- Stands for digits · 10 ^ exponent, with the sign kept apart so that a negative zero can be said.
structure Decimal where
  negative : Bool
  digits : Nat
  exponent : Int
  deriving DecidableEq, Repr, Inhabited

namespace Decimal

def digitChars (n : Nat) : List Char :=
  Nat.toDigits 10 n

def width (n : Nat) : Nat :=
  (digitChars n).length

-- Moves trailing zeros from the digits to the exponent. The fuel is the number of digits.
def stripZeros : Nat → Nat → Int → Nat × Int
  | 0, digits, exponent => (digits, exponent)
  | fuel + 1, digits, exponent =>
    if digits != 0 && digits % 10 == 0 then stripZeros fuel (digits / 10) (exponent + 1)
    else (digits, exponent)

def normalize (d : Decimal) : Decimal :=
  let (digits, exponent) := stripZeros (width d.digits) d.digits d.exponent
  { d with digits, exponent }

end Decimal

-- What a number is written as: a decimal, or one of the three values that are none.
inductive Numeral where
  | finite (value : Decimal)
  | infinite (negative : Bool)
  | notANumber
  deriving DecidableEq, Repr, Inhabited

end PathData
