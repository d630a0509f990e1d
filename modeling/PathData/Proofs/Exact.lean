import Mathlib
import PathData.Config.Options
import PathData.Proofs.Commands
import PathData.Proofs.Grid

namespace PathData
namespace Exact

-- What a field need not have: roots, and a text for every number. Nothing is asked of them.
class Roots (α : Type) where
  sqrt : α → Except Fault α
  hypot : α → α → α
  numeral : α → Numeral

def decimal {α : Type} [Field α] (d : Decimal) : α :=
  let size := (d.digits : α) * ((10 : ℕ) : α) ^ d.exponent
  if d.negative then -size else size

scoped instance scalar {α : Type} [Field α] [LinearOrder α] [FloorRing α] [Roots α] : Scalar α where
  decLt := inferInstance
  decLe := inferInstance
  abs x := |x|
  copySign size sign := if sign < 0 then -|size| else |size|
  floor x := .ok ⌊x⌋
  sqrt := Roots.sqrt
  hypot := Roots.hypot
  tenPow n := .ok (((10 : ℕ) : α) ^ n)
  tenthPow n := .ok ((1 / ((10 : ℕ) : α)) ^ n)
  ofDecimal := decimal
  numeral := Roots.numeral

variable {α : Type} [Field α] [LinearOrder α] [FloorRing α] [Roots α]

@[simp] theorem literal_zero : @OfNat.ofNat α 0 (Scalar.instOfNat 0) = 0 := Nat.cast_zero

@[simp] theorem literal_one : @OfNat.ofNat α 1 (Scalar.instOfNat 1) = 1 := Nat.cast_one

@[simp] theorem literal_ofNat (n : ℕ) [n.AtLeastTwo] :
    @OfNat.ofNat α n (Scalar.instOfNat n) = OfNat.ofNat n := rfl

variable [IsStrictOrderedRing α]

theorem unscale_pow (x : α) (digits : ℤ) :
    Rounding.unscale x ((10 : α) ^ digits) = .ok (x / 10 ^ digits) := by
  have nonzero : (10 : α) ^ digits ≠ 0 := (Grid.scale_pos digits).ne'
  unfold Rounding.unscale
  rw [literal_zero, if_neg (by simpa using nonzero)]

theorem toFixed_eq (x : α) (digits : ℤ) :
    Rounding.toFixed x digits = .ok (Grid.fixed x digits) := by
  unfold Rounding.toFixed
  simp only [literal_one, literal_ofNat]
  exact unscale_pow _ digits

theorem error_eq (o : Options α) : o.error = .ok (1 / 10 ^ o.precision) := by
  have positive := Grid.scale_pos (α := α) o.precision
  have whole : (1 / 10 : α) ^ o.precision * 10 ^ o.precision = 1 := by
    rw [one_div, inv_zpow, inv_mul_cancel₀ positive.ne']
  have truncated : Scalar.trunc ((1 / 10 : α) ^ o.precision * 10 ^ o.precision) = .ok 1 := by
    rw [whole]
    unfold Scalar.trunc
    rw [literal_zero]
    have floor : (Scalar.floor (Scalar.abs (1 : α)) : Except Fault ℤ) = .ok 1 := by
      change Except.ok ⌊|(1 : α)|⌋ = _
      rw [abs_one, Int.floor_one]
    rw [floor]
    simp [bind, Except.bind, pure, Except.pure, not_lt.2 (zero_le_one (α := α))]
  change (Scalar.trunc ((1 / 10 : α) ^ o.precision * 10 ^ o.precision) >>= fun whole =>
    Rounding.unscale (whole : α) ((10 : α) ^ o.precision)) = _
  rw [truncated]
  change Rounding.unscale ((1 : ℤ) : α) ((10 : α) ^ o.precision) = _
  rw [Int.cast_one, unscale_pow]

theorem round_eq (precision : ℤ) (error x : α) :
    Rounding.round precision error x = .ok (Grid.rounded precision error x) := by
  unfold Rounding.round Grid.rounded
  simp only [toFixed_eq]
  split
  · by_cases same : Grid.fixed x precision = x
    · rw [if_pos same]
      change (if (Grid.fixed x precision == x) = true then _ else _) = _
      rw [if_pos (beq_iff_eq.2 same)]
      rfl
    · rw [if_neg same]
      change (if (Grid.fixed x precision == x) = true then _ else _) = _
      rw [if_neg (fun equal => same (beq_iff_eq.1 equal))]
      rfl
  · rfl

def wholeRoot? (n : ℕ) : Option ℕ :=
  (List.range (n + 1)).find? fun k => k * k = n

def root? (x : ℚ) : Option ℚ :=
  if x < 0 then none
  else
    match wholeRoot? x.num.toNat, wholeRoot? x.den with
    | some a, some b => some (a / b)
    | _, _ => none

-- Without a rational length, the way along both axes stands in for it.
scoped instance rationals : Roots ℚ where
  sqrt x :=
    match root? x with
    | some root => .ok root
    | none => .error .domain
  hypot x y := (root? (x * x + y * y)).getD (|x| + |y|)
  numeral x :=
    match (List.range 20).find? fun places => (x * 10 ^ places).den = 1 with
    | some places => .finite ⟨x < 0, (x * 10 ^ places).num.natAbs, -places⟩
    | none => .notANumber

end Exact
end PathData
