import PathData.Number.Binary
import PathData.Number.Decimal

namespace PathData
namespace Layout

open Decimal

def zeros (count : Int) : List Char :=
  List.replicate count.toNat '0'

-- Digits, a point among them where one is needed, and zeros for the places that have no digit.
-- `whole` stands before the point of a number below one.
def positional (whole : List Char) (digits : Nat) (exponent : Int) : List Char :=
  let ds := digitChars digits
  let point := (ds.length : Int) + exponent
  if 0 ≤ exponent then ds ++ zeros exponent
  else if 0 < point then ds.take point.toNat ++ '.' :: ds.drop point.toNat
  else whole ++ '.' :: zeros (-point) ++ ds

def leading : List Char → List Char
  | d :: e :: rest => d :: '.' :: e :: rest
  | ds => ds

def leadingExponent (digits : Nat) (exponent : Int) : Int :=
  (width digits : Int) - 1 + exponent

def sign (negative : Bool) : List Char :=
  if negative then ['-'] else []

def compactExponent (n : Int) : List Char :=
  'e' :: sign (n < 0) ++ digitChars n.natAbs

-- Always signed, and two digits at least.
def reportExponent (n : Int) : List Char :=
  let ds := digitChars n.natAbs
  'e' :: (if n < 0 then '-' else '+') :: zeros (2 - ds.length) ++ ds

def scientific (written : Int → List Char) (digits : Nat) (exponent : Int) : List Char :=
  leading (digitChars digits) ++ written (leadingExponent digits exponent)

def infinity (negative : Bool) : List Char :=
  sign negative ++ ['i', 'n', 'f']

def notANumber : List Char :=
  ['n', 'a', 'n']

-- Scientific only where that is strictly shorter. Zero has no sign.
def compact : Numeral → List Char
  | .notANumber => notANumber
  | .infinite negative => infinity negative
  | .finite d =>
    if d.digits = 0 then ['0'] else
    let plain := positional [] d.digits d.exponent
    let short := scientific compactExponent d.digits d.exponent
    sign d.negative ++ if short.length < plain.length then short else plain

-- Scientific below 10 ^ -4 and from 10 ^ 16 on. A whole number ends in a point and a zero.
def report : Numeral → List Char
  | .notANumber => notANumber
  | .infinite negative => infinity negative
  | .finite d =>
    let place := leadingExponent d.digits d.exponent
    sign d.negative ++
      if d.digits != 0 && (place < -4 || 16 ≤ place) then
        scientific reportExponent d.digits d.exponent
      else
        positional ['0'] d.digits d.exponent ++ if 0 ≤ d.exponent then ['.', '0'] else []

-- The nearest multiple of 10 ^ -places, as a count of those; a tie goes to the even one.
def roundToPlaces (places mantissa : Nat) (exponent : Int) : Nat :=
  let numerator := mantissa * Nat.pow 10 places * Nat.pow 2 exponent.toNat
  let denominator := Nat.pow 2 (-exponent).toNat
  let below := numerator / denominator
  match compare (2 * numerator) ((2 * below + 1) * denominator) with
  | .lt => below
  | .gt => below + 1
  | .eq => below + below % 2

def fixed (places : Nat) : Binary → List Char
  | .notANumber => notANumber
  | .infinite negative => infinity negative
  | .finite negative mantissa exponent =>
    let count := roundToPlaces places mantissa exponent
    let ds := digitChars (count % Nat.pow 10 places)
    sign (negative && count != 0) ++ digitChars (count / Nat.pow 10 places) ++
      '.' :: zeros ((places : Int) - ds.length) ++ ds

end Layout
end PathData
