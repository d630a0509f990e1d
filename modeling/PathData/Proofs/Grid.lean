import Mathlib.Algebra.Order.Field.Power
import Mathlib.Algebra.Order.Floor.Ring
import Mathlib.Tactic.FieldSimp
import Mathlib.Tactic.Linarith
import Mathlib.Tactic.Positivity
import Mathlib.Tactic.Ring
import PathData.Geometry.Point

namespace PathData
namespace Grid

section Multiples

variable {α : Type} [Field α]

def Multiple (digits : ℤ) (x : α) : Prop :=
  ∃ n : ℤ, x = n / 10 ^ digits

namespace Multiple

variable {digits : ℤ} {x y : α}

theorem zero (digits : ℤ) : Multiple digits (0 : α) := ⟨0, by simp⟩

theorem add (left : Multiple digits x) (right : Multiple digits y) : Multiple digits (x + y) := by
  obtain ⟨m, rfl⟩ := left
  obtain ⟨n, rfl⟩ := right
  exact ⟨m + n, by push_cast; ring⟩

theorem neg (multiple : Multiple digits x) : Multiple digits (-x) := by
  obtain ⟨m, rfl⟩ := multiple
  exact ⟨-m, by push_cast; ring⟩

theorem sub (left : Multiple digits x) (right : Multiple digits y) : Multiple digits (x - y) := by
  rw [sub_eq_add_neg]
  exact left.add right.neg

end Multiple
end Multiples

section Distances

variable {α : Type} [Field α] [LinearOrder α]

def Close (tolerance : α) (p q : Point α) : Prop :=
  |p.x - q.x| < tolerance ∧ |p.y - q.y| < tolerance

theorem Close.symm {tolerance : α} {p q : Point α} (close : Close tolerance p q) :
    Close tolerance q p := by
  unfold Close at close ⊢
  rwa [abs_sub_comm q.x, abs_sub_comm q.y]

theorem Close.refl [IsStrictOrderedRing α] {tolerance : α} (positive : 0 < tolerance)
    (p : Point α) : Close tolerance p p := by
  unfold Close
  rw [sub_self, sub_self, abs_zero]
  exact ⟨positive, positive⟩

theorem offset_off {base x y tolerance : α} (off : |y - (x + -base)| < tolerance) :
    |base + y - x| < tolerance := by
  have same : base + y - x = y - (x + -base) := by ring
  rwa [same]

end Distances

variable {α : Type} [Field α] [LinearOrder α] [FloorRing α]

def fixed (x : α) (digits : ℤ) : α :=
  let size := |((⌊|x| * 10 ^ digits + 1 / 2⌋ : ℤ) : α)|
  (if x < 0 then -size else size) / 10 ^ digits

def rounded (precision : ℤ) (error x : α) : α :=
  if 0 < precision ∧ precision < 20 then
    if fixed x precision = x then x
    else if error ≤ fixed |fixed x (precision - 1) - x| (precision + 1) then fixed x precision
    else fixed x (precision - 1)
  else fixed x 0

def places (precision : ℤ) : ℤ :=
  if 0 < precision ∧ precision < 20 then precision else 0

variable [IsStrictOrderedRing α]

theorem scale_pos (digits : ℤ) : (0 : α) < 10 ^ digits :=
  zpow_pos (by norm_num) digits

theorem fixed_multiple (x : α) (digits : ℤ) : Multiple digits (fixed x digits) := by
  unfold fixed
  dsimp only
  split
  · exact ⟨-|⌊|x| * 10 ^ digits + 1 / 2⌋|, by push_cast; rfl⟩
  · exact ⟨|⌊|x| * 10 ^ digits + 1 / 2⌋|, by push_cast; rfl⟩

theorem floor_near (size : α) (digits : ℤ) :
    |(⌊size * 10 ^ digits + 1 / 2⌋ : α) / 10 ^ digits - size| ≤ 1 / 2 / 10 ^ digits := by
  have positive := scale_pos (α := α) digits
  have low := Int.floor_le (size * 10 ^ digits + 1 / 2)
  have high := Int.lt_floor_add_one (size * 10 ^ digits + 1 / 2)
  have scaled : (⌊size * 10 ^ digits + 1 / 2⌋ : α) / 10 ^ digits - size =
      (⌊size * 10 ^ digits + 1 / 2⌋ - size * 10 ^ digits) / 10 ^ digits := by
    field_simp
  rw [scaled, abs_div, abs_of_pos positive, div_le_div_iff_of_pos_right positive, abs_le]
  constructor <;> linarith

-- The sign is kept, so it is enough to look at the size.
theorem fixed_eq (x : α) (digits : ℤ) :
    fixed x digits = (if x < 0 then -1 else 1) * (⌊|x| * 10 ^ digits + 1 / 2⌋ / 10 ^ digits) := by
  have scaled : 0 ≤ |x| * 10 ^ digits + 1 / 2 := by
    have := mul_nonneg (abs_nonneg x) (scale_pos (α := α) digits).le
    linarith
  have size : (0 : α) ≤ (⌊|x| * 10 ^ digits + 1 / 2⌋ : ℤ) := by
    exact_mod_cast Int.floor_nonneg.2 scaled
  unfold fixed
  dsimp only
  rw [abs_of_nonneg size]
  split <;> ring

theorem fixed_of_nonneg {x : α} (nonneg : 0 ≤ x) (digits : ℤ) :
    fixed x digits = ⌊x * 10 ^ digits + 1 / 2⌋ / 10 ^ digits := by
  rw [fixed_eq, if_neg nonneg.not_gt, one_mul, abs_of_nonneg nonneg]

theorem fixed_neg (x : α) (digits : ℤ) : fixed (-x) digits = -fixed x digits := by
  rw [fixed_eq, fixed_eq, abs_neg]
  rcases lt_trichotomy x 0 with negative | rfl | positive
  · rw [if_neg (by linarith), if_pos negative]
    ring
  · have none : ⌊|(0 : α)| * 10 ^ digits + 1 / 2⌋ = 0 := by
      rw [abs_zero, zero_mul, zero_add, Int.floor_eq_iff]
      norm_num
    rw [none, Int.cast_zero, zero_div, mul_zero, mul_zero, neg_zero]
  · rw [if_pos (by linarith), if_neg positive.not_gt]
    ring

theorem fixed_near (x : α) (digits : ℤ) : |fixed x digits - x| ≤ 1 / 2 / 10 ^ digits := by
  have close {x : α} (nonneg : 0 ≤ x) : |fixed x digits - x| ≤ 1 / 2 / 10 ^ digits := by
    rw [fixed_of_nonneg nonneg]
    exact floor_near x digits
  rcases le_total 0 x with nonneg | nonpos
  · exact close nonneg
  · have mirrored := close (neg_nonneg.2 nonpos)
    rwa [fixed_neg, neg_sub_neg, abs_sub_comm] at mirrored

theorem fixed_of_multiple {digits : ℤ} {x : α} (multiple : Multiple digits x) :
    fixed x digits = x := by
  have positive := scale_pos (α := α) digits
  obtain ⟨n, same⟩ := multiple
  have whole : |x| * 10 ^ digits = (|n| : ℤ) := by
    rw [same, abs_div, abs_of_pos positive, div_mul_cancel₀ _ positive.ne', Int.cast_abs]
  have floor : ⌊|x| * 10 ^ digits + 1 / 2⌋ = |n| := by
    rw [whole, Int.floor_eq_iff]
    constructor <;> linarith
  have size : ((|n| : ℤ) : α) / 10 ^ digits = |x| := by
    rw [← whole, mul_div_cancel_right₀ _ positive.ne']
  rw [fixed_eq, floor, size]
  split
  · rename_i negative
    rw [abs_of_neg negative, neg_one_mul, neg_neg]
  · rename_i positive
    rw [abs_of_nonneg (not_lt.1 positive), one_mul]

theorem Multiple.finer {digits : ℤ} {x : α} (multiple : Multiple (digits - 1) x) :
    Multiple digits x := by
  obtain ⟨n, rfl⟩ := multiple
  have ten : (10 : α) ≠ 0 := by norm_num
  refine ⟨n * 10, ?_⟩
  rw [zpow_sub_one₀ ten]
  push_cast
  field_simp

theorem Multiple.of_le {m n : ℤ} {x : α} (multiple : Multiple m x) (fewer : m ≤ n) :
    Multiple n x := by
  induction n, fewer using Int.leInduction with
  | base => exact multiple
  | succ n _ ih =>
    have coarser : Multiple (n + 1 - 1) x := by rwa [add_sub_cancel_right]
    exact coarser.finer

theorem Multiple.eq_of_close {digits : ℤ} {x y : α} (left : Multiple digits x)
    (right : Multiple digits y) (close : |x - y| < 1 / 10 ^ digits) : x = y := by
  have positive := scale_pos (α := α) digits
  obtain ⟨m, rfl⟩ := left
  obtain ⟨n, rfl⟩ := right
  rw [← sub_div, abs_div, abs_of_pos positive, div_lt_div_iff_of_pos_right positive] at close
  have few : |m - n| < 1 := by exact_mod_cast close
  rw [sub_eq_zero.1 (Int.abs_lt_one_iff.1 few)]

theorem Multiple.nonneg_of_close {digits : ℤ} {x y : α} (multiple : Multiple digits x)
    (nonneg : 0 ≤ y) (close : |x - y| < 1 / 10 ^ digits) : 0 ≤ x := by
  have positive := scale_pos (α := α) digits
  obtain ⟨n, rfl⟩ := multiple
  have above := (abs_lt.1 close).1
  have few : (-1 : α) / 10 ^ digits < n / 10 ^ digits := by
    rw [neg_div]
    linarith
  rw [div_lt_div_iff_of_pos_right positive] at few
  have whole : 0 ≤ n := by
    have : -1 < n := by exact_mod_cast few
    omega
  exact div_nonneg (by exact_mod_cast whole) positive.le

theorem rounded_multiple (precision : ℤ) (error x : α) :
    Multiple (places precision) (rounded precision error x) := by
  unfold places rounded
  split
  · split
    · rename_i same
      exact same ▸ fixed_multiple x precision
    · split
      · exact fixed_multiple x precision
      · exact (fixed_multiple x (precision - 1)).finer
  · exact fixed_multiple x 0

theorem rounded_of_multiple {precision : ℤ} {x : α} (error : α)
    (multiple : Multiple (places precision) x) : rounded precision error x = x := by
  unfold places at multiple
  unfold rounded
  split
  · rename_i keeps
    rw [if_pos keeps] at multiple
    rw [if_pos (fixed_of_multiple multiple)]
  · rename_i keeps
    rw [if_neg keeps] at multiple
    exact fixed_of_multiple multiple

-- Whether one place fewer will do is decided with one place more than the precision has.
theorem unit_le_fixed_iff {size : α} (nonneg : 0 ≤ size) (digits : ℤ) :
    1 / 10 ^ digits ≤ fixed size (digits + 1) ↔ 19 / 20 ≤ size * 10 ^ digits := by
  have positive := scale_pos (α := α) digits
  have unit : (1 : α) / 10 ^ digits = 10 / (10 ^ digits * 10) := by field_simp
  rw [fixed_of_nonneg nonneg, zpow_add_one₀ (by norm_num), unit,
    div_le_div_iff_of_pos_right (by positivity), ← Int.cast_ofNat, Int.cast_le, Int.le_floor,
    Int.cast_ofNat]
  constructor <;> intro <;> linarith

theorem rounded_within {precision : ℤ} (decimals : 0 < precision) (few : precision < 20) (x : α) :
    |rounded precision (1 / 10 ^ precision) x - x| < 19 / 20 * (1 / 10 ^ precision) := by
  have positive := scale_pos (α := α) precision
  have unit : (0 : α) < 1 / 10 ^ precision := one_div_pos.2 positive
  unfold rounded
  rw [if_pos ⟨decimals, few⟩]
  split
  · rw [sub_self, abs_zero]
    positivity
  · split
    · have near := fixed_near x precision
      rw [div_eq_mul_one_div] at near
      linarith
    · rename_i small
      rw [unit_le_fixed_iff (abs_nonneg _), not_le] at small
      rwa [mul_one_div, lt_div_iff₀ positive]

theorem rounded_near {precision : ℤ} (few : precision < 20) (x : α) :
    |rounded precision (1 / 10 ^ precision) x - x| < 1 / 10 ^ precision := by
  have positive := scale_pos (α := α) precision
  by_cases decimals : 0 < precision
  · have within := rounded_within decimals few x
    have unit : (0 : α) < 1 / 10 ^ precision := one_div_pos.2 positive
    linarith
  · have atMost : (10 : α) ^ precision ≤ 1 :=
      zpow_le_one_of_nonpos₀ (by norm_num) (not_lt.1 decimals)
    have near := fixed_near x 0
    rw [zpow_zero] at near
    have unit : (1 : α) ≤ 1 / 10 ^ precision := by
      rwa [le_div_iff₀ positive, one_mul]
    unfold rounded
    rw [if_neg fun keeps => decimals keeps.1]
    linarith

end Grid
end PathData
