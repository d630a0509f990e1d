import PathData.Number.Binary
import PathData.Number.Shortest
import PathData.Number.Scalar

namespace PathData
namespace Double

def ofDecimal (d : Decimal) : Float :=
  let magnitude := Float.ofScientific d.digits (d.exponent < 0) d.exponent.natAbs
  if d.negative then -magnitude else magnitude

def infinity : Float := 1.0 / 0.0

def notANumber : Float := 0.0 / 0.0

def ofNumeral : Numeral → Float
  | .finite d => ofDecimal d
  | .infinite negative => if negative then -infinity else infinity
  | .notANumber => notANumber

def copySign (magnitude sign : Float) : Float :=
  if (Binary.ofFloat magnitude).negative == (Binary.ofFloat sign).negative then magnitude
  else -magnitude

-- Only a negative number has no root. A NaN is its own.
def sqrt (x : Float) : Except Fault Float :=
  if x < 0 then .error .domain else .ok x.sqrt

-- The integer square root by Newton's rule. From above the root it goes down until it is there.
def descend (n : Nat) : Nat → Nat → Nat
  | 0, root => root
  | fuel + 1, root =>
    let next := (root + n / root) / 2
    if next < root then descend n fuel next else root

def natRoot (n : Nat) : Nat :=
  descend n (n.log2 + 1) (Nat.pow 2 (n.log2 / 2 + 1))

-- The length of (x, y), rounded once: the sum of squares is taken exactly, and its root to 64 bits
-- with a last bit that says whether anything was cut off.
def hypot (x y : Float) : Float :=
  match Binary.ofFloat x, Binary.ofFloat y with
  | .infinite _, _ | _, .infinite _ => infinity
  | .notANumber, _ | _, .notANumber => notANumber
  | .finite _ m e, .finite _ n f =>
    let low := min e f
    let a := m * Nat.pow 2 (e - low).toNat
    let b := n * Nat.pow 2 (f - low).toNat
    let square := (a * a + b * b) * Nat.pow 4 64
    let root := natRoot square
    let sticky := if root * root = square then 0 else 1
    let exponent := low - 65
    let digits := 2 * root + sticky
    if 0 ≤ exponent then Float.ofScientific (digits * Nat.pow 2 exponent.toNat) false 0
    else
      let places := (-exponent).toNat
      Float.ofScientific (digits * Nat.pow 5 places) true places

-- From half a unit above the greatest double on, there is no nearest one.
def intToFloat (n : Int) : Except Fault Float :=
  if n.natAbs < (Nat.pow 2 54 - 1) * Nat.pow 2 970 then .ok (Float.ofInt n)
  else .error .hugeExponent

-- Up to the 22nd, a power is the double nearest to the exact one; none below the -323rd is different
-- from zero. Above, where a double no longer holds the power, the platform's function decides.
def tenPow (n : Int) : Except Fault Float := do
  if -330 ≤ n ∧ n ≤ 22 then return Float.ofScientific 1 (n < 0) n.natAbs
  let power := Float.pow 10 (← intToFloat n)
  if 308 < n then .error .outOfRange else return power

-- One tenth stands for the nearest double, which is this many units of 10 ^ -55.
def tenthDigits : Nat := 1000000000000000055511151231257827021181583404541015625

-- The powers that decide a unit of precision are the exact power of that double, rounded once.
-- None above the 330th is different from zero.
def tenthPow (n : Int) : Except Fault Float := do
  if 0 ≤ n ∧ n ≤ 330 then
    return Float.ofScientific (Nat.pow tenthDigits n.toNat) true (55 * n.toNat)
  let exponent ← intToFloat n
  if n < -308 then .error .outOfRange else return Float.pow 0.1 exponent

end Double

instance : Scalar Float where
  natCast := Float.ofNat
  intCast := Float.ofInt
  decLt := Float.decLt
  decLe := Float.decLe
  abs := Float.abs
  copySign := Double.copySign
  floor x := (Binary.ofFloat x).floor
  sqrt := Double.sqrt
  hypot := Double.hypot
  tenPow := Double.tenPow
  tenthPow := Double.tenthPow
  ofDecimal := Double.ofDecimal
  numeral x := Shortest.ofBinary (Binary.ofFloat x)

end PathData
