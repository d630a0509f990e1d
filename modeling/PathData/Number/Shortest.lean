import PathData.Number.Binary
import PathData.Number.Decimal

namespace PathData
namespace Shortest

-- The interval in units of 2 ^ (exponent - 2): the value is 4 · mantissa there, and the ends are
-- half a unit in the last place away, a quarter below a power of two.
structure Interval where
  low : Nat
  value : Nat
  high : Nat
  exponent : Int
  closed : Bool

def Interval.of (mantissa : Nat) (exponent : Int) : Interval where
  low :=
    if mantissa = Binary.hidden ∧ Binary.minExponent < exponent then 4 * mantissa - 1
    else 4 * mantissa - 2
  value := 4 * mantissa
  high := 4 * mantissa + 2
  exponent := exponent - 2
  closed := mantissa % 2 = 0

-- With `scale` as numerator and denominator, n · 2 ^ exponent / 10 ^ place is
-- n · numerator / denominator.
structure Scale where
  numerator : Nat
  denominator : Nat

def Scale.of (exponent place : Int) : Scale where
  numerator := Nat.pow 2 exponent.toNat * Nat.pow 10 (-place).toNat
  denominator := Nat.pow 2 (-exponent).toNat * Nat.pow 10 place.toNat

def Interval.holds (i : Interval) (s : Scale) (digits : Nat) : Bool :=
  let point := digits * s.denominator
  let low := i.low * s.numerator
  let high := i.high * s.numerator
  if i.closed then low ≤ point && point ≤ high else low < point && point < high

-- Of two neighbours of the exact value the nearer one, and of two that are as near the even one.
def Interval.onGrid (i : Interval) (place : Int) : Option Nat :=
  let s := Scale.of i.exponent place
  let exact := i.value * s.numerator
  let below := exact / s.denominator
  let above := below + 1
  match i.holds s below, i.holds s above with
  | false, false => none
  | true, false => some below
  | false, true => some above
  | true, true =>
    match compare (2 * exact) ((below + above) * s.denominator) with
    | .lt => some below
    | .gt => some above
    | .eq => if below % 2 = 0 then some below else some above

-- The place of the leading digit of n · 2 ^ exponent. The guess from the number of bits is at most
-- one off, and one comparison mends it.
def leadingPlace (n : Nat) (exponent : Int) : Int :=
  let guess := ((n.log2 : Int) + exponent) * 30103 / 100000
  let s := Scale.of exponent (guess + 1)
  if s.denominator ≤ n * s.numerator then guess + 1 else
  let s := Scale.of exponent guess
  if s.denominator ≤ n * s.numerator then guess else guess - 1

-- Seventeen digits always read back, so the search ends on a hit.
def Interval.search (i : Interval) (leading : Int) : Nat → Nat → Nat × Int
  | 0, _ => (i.value, i.exponent)
  | fuel + 1, count =>
    let place := leading - (count : Int) + 1
    match i.onGrid place with
    | some digits => (digits, place)
    | none => i.search leading fuel (count + 1)

-- `mantissa` is not zero.
def digits (mantissa : Nat) (exponent : Int) : Nat × Int :=
  let i := Interval.of mantissa exponent
  i.search (leadingPlace i.value i.exponent) 17 1

def ofBinary : Binary → Numeral
  | .notANumber => .notANumber
  | .infinite negative => .infinite negative
  | .finite negative mantissa exponent =>
    if mantissa = 0 then .finite ⟨negative, 0, 0⟩
    else
      let (digits, place) := digits mantissa exponent
      .finite (Decimal.normalize ⟨negative, digits, place⟩)

end Shortest
end PathData
