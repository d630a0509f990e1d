import PathData.Number.Fault

namespace PathData

-- A finite value is mantissa · 2 ^ exponent; the mantissa of a normal double has 53 bits.
inductive Binary where
  | finite (negative : Bool) (mantissa : Nat) (exponent : Int)
  | infinite (negative : Bool)
  | notANumber
  deriving DecidableEq, Repr, Inhabited

namespace Binary

def minExponent : Int := -1074

-- The leading bit of the mantissa of a normal double, which is not stored.
def hidden : Nat := Nat.pow 2 52

def ofFloat (x : Float) : Binary :=
  let bits : Nat := x.toBits.toNat
  let negative := Nat.pow 2 63 ≤ bits
  let biased : Nat := bits / hidden % 2048
  let fraction := bits % hidden
  if biased = 2047 then
    if fraction = 0 then .infinite negative else .notANumber
  else if biased = 0 then .finite negative fraction minExponent
  else .finite negative (hidden + fraction) ((biased : Int) - 1075)

def negative : Binary → Bool
  | .finite negative _ _ | .infinite negative => negative
  | .notANumber => false

def floor : Binary → Except Fault Int
  | .notANumber => .error .notANumber
  | .infinite _ => .error .infinite
  | .finite negative mantissa exponent =>
    let signed : Int := if negative then -mantissa else mantissa
    if 0 ≤ exponent then .ok (signed * Nat.pow 2 exponent.toNat)
    else .ok (signed / Nat.pow 2 (-exponent).toNat)

end Binary

end PathData
