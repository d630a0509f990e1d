import PathData.Number.Scalar

namespace PathData
namespace Rounding

open scoped PathData.Scalar

variable {α : Type} [Scalar α]

-- A scale too small for the numbers is zero, and nothing can be divided by it.
def unscale (x scale : α) : Except Fault α :=
  if scale == 0 then .error .divisionByZero else .ok (x / scale)

-- To the nearest multiple of 10 ^ -digits; halves go away from zero, and the sign is kept.
def toFixed (x : α) (digits : Int) : Except Fault α := do
  let scale ← Scalar.tenPow digits
  let whole ← Scalar.floor (Scalar.abs x * scale + 1 / 2)
  unscale (Scalar.copySign (whole : α) x) scale

def truncate (x : α) (digits : Int) : Except Fault α := do
  let scale ← Scalar.tenPow digits
  let whole ← Scalar.trunc (x * scale)
  unscale (whole : α) scale

def unit (precision : Int) : Except Fault α := do
  truncate (← Scalar.tenthPow precision) precision

-- Rounds to the precision, and to one place fewer when that stays within `error`. Precisions that
-- leave no place, or more than numbers have, round to whole numbers.
def round (precision : Int) (error x : α) : Except Fault α := do
  if 0 < precision ∧ precision < 20 then
    let fixed ← toFixed x precision
    if fixed == x then return x
    let rounded ← toFixed x (precision - 1)
    let off ← toFixed (Scalar.abs (rounded - x)) (precision + 1)
    return if error ≤ off then fixed else rounded
  else toFixed x 0

end Rounding
end PathData
