import PathData.Number.Fault
import PathData.Number.Decimal

namespace PathData

-- `floor` answers with an integer, so it fails where there is none. Powers fail when they leave the
-- range of the numbers, and a power that is too small is zero instead. `numeral` is the shortest
-- writing of a number and `ofDecimal` reads one, rounding once.
class Scalar (α : Type) extends Add α, Sub α, Mul α, Div α, Neg α, NatCast α, IntCast α, BEq α,
    LT α, LE α where
  decLt : ∀ a b : α, Decidable (a < b)
  decLe : ∀ a b : α, Decidable (a ≤ b)
  abs : α → α
  copySign : α → α → α
  floor : α → Except Fault Int
  sqrt : α → Except Fault α
  hypot : α → α → α
  tenPow : Int → Except Fault α
  tenthPow : Int → Except Fault α
  ofDecimal : Decimal → α
  numeral : α → Numeral

namespace Scalar

variable {α : Type} [Scalar α]

instance (a b : α) : Decidable (a < b) := decLt a b
instance (a b : α) : Decidable (a ≤ b) := decLe a b

scoped instance (n : Nat) : OfNat α n := ⟨(n : α)⟩

def trunc (x : α) : Except Fault Int := do
  let whole ← floor (abs x)
  return if x < 0 then -whole else whole

end Scalar
end PathData
