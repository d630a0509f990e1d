import Mathlib
import PathData.Proofs.Exact

namespace PathData
namespace Grid

variable {α : Type} [Field α] [LinearOrder α] [FloorRing α]

-- A number of units that is so near to `n` tens of them that one place fewer will do.
def Captured (t : α) (n : ℤ) : Prop :=
  |((10 * n : ℤ) : α) - t| < (19 : ℕ) / (20 : ℕ)

instance (t : α) (n : ℤ) : Decidable (Captured t n) :=
  inferInstanceAs (Decidable (_ < _))

def units (t : α) : ℤ :=
  if Captured t (round (t / (10 : ℕ))) then 10 * round (t / (10 : ℕ)) else round t

variable [IsStrictOrderedRing α]

omit [FloorRing α] [IsStrictOrderedRing α] in
theorem captured_iff {t : α} {n : ℤ} : Captured t n ↔ |10 * (n : α) - t| < 19 / 20 := by
  unfold Captured
  push_cast
  exact Iff.rfl

theorem Captured.nearest {t : α} {n : ℤ} (captured : Captured t n) : round (t / (10 : ℕ)) = n := by
  obtain ⟨below, above⟩ := abs_lt.1 (captured_iff.1 captured)
  rw [round_eq_iff]
  push_cast
  constructor <;> linarith

theorem units_captured {t : α} {n : ℤ} (captured : Captured t n) : units t = 10 * n := by
  unfold units
  rw [captured.nearest, if_pos captured]

omit [IsStrictOrderedRing α] in
theorem units_free {t : α} (free : ∀ n, ¬ Captured t n) : units t = round t :=
  if_neg (free _)

theorem units_whole (n : ℤ) : units (n : α) = n := by
  by_cases captured : ∃ k, Captured (n : α) k
  · obtain ⟨k, captured⟩ := captured
    have few : |10 * k - n| < 1 := by
      have near : |((10 * k - n : ℤ) : α)| < 19 / 20 := by
        push_cast
        exact captured_iff.1 captured
      have unit : |((10 * k - n : ℤ) : α)| < 1 := lt_trans near (by norm_num)
      exact_mod_cast unit
    rw [units_captured captured]
    exact sub_eq_zero.1 (Int.abs_lt_one_iff.1 few)
  · rw [units_free (not_exists.1 captured), round_intCast]

theorem round_mono {s t : α} (ordered : s ≤ t) : round s ≤ round t := by
  rw [round_eq, round_eq]
  exact Int.floor_le_floor (by linarith)

-- A number between the units and the tens that it would pass is drawn to the tens itself.
theorem units_mono {s t : α} (ordered : s ≤ t) : units s ≤ units t := by
  by_cases first : ∃ m, Captured s m <;> by_cases second : ∃ n, Captured t n
  · obtain ⟨m, first⟩ := first
    obtain ⟨n, second⟩ := second
    rw [units_captured first, units_captured second, ← first.nearest, ← second.nearest]
    have tens : round (s / (10 : ℕ)) ≤ round (t / (10 : ℕ)) :=
      round_mono (div_le_div_of_nonneg_right ordered (Nat.cast_nonneg 10))
    omega
  · obtain ⟨m, first⟩ := first
    have far : ¬ Captured t m := not_exists.1 second m
    rw [units_captured first, units_free (not_exists.1 second), round_eq, Int.le_floor]
    push_cast
    have reached := (abs_lt.1 (captured_iff.1 first)).2
    by_contra short
    exact far (captured_iff.2 (abs_lt.2 ⟨by linarith, by linarith⟩))
  · obtain ⟨n, second⟩ := second
    have far : ¬ Captured s n := not_exists.1 first n
    rw [units_captured second, units_free (not_exists.1 first), round_eq, ← Int.lt_add_one_iff,
      Int.floor_lt]
    push_cast
    have reached := (abs_lt.1 (captured_iff.1 second)).1
    by_contra beyond
    exact far (captured_iff.2 (abs_lt.2 ⟨by linarith, by linarith⟩))
  · rw [units_free (not_exists.1 first), units_free (not_exists.1 second)]
    exact round_mono ordered

theorem rounded_neg (precision : ℤ) (error x : α) :
    rounded precision error (-x) = -rounded precision error x := by
  have off : |-fixed x (precision - 1) - -x| = |fixed x (precision - 1) - x| := by
    rw [neg_sub_neg, abs_sub_comm]
  unfold rounded
  simp only [fixed_neg, neg_inj, off]
  split_ifs <;> rfl

theorem rounded_units {precision : ℤ} (decimals : 0 < precision) (few : precision < 20) {x : α}
    (nonneg : 0 ≤ x) :
    rounded precision (1 / 10 ^ precision) x = units (x * 10 ^ precision) / 10 ^ precision := by
  have positive := scale_pos (α := α) precision
  have coarse : fixed x (precision - 1) =
      10 * round (x * 10 ^ precision / (10 : ℕ)) / 10 ^ precision := by
    rw [fixed_of_nonneg nonneg, ← round_eq, zpow_sub_one₀ (by norm_num), Nat.cast_ofNat, mul_div_assoc,
      div_eq_mul_inv _ (10 : α)]
    field_simp
  have off : |fixed x (precision - 1) - x| * 10 ^ precision =
      |10 * (round (x * 10 ^ precision / (10 : ℕ)) : α) - x * 10 ^ precision| := by
    rw [← abs_of_pos positive, ← abs_mul, abs_of_pos positive, coarse, sub_mul,
      div_mul_cancel₀ _ positive.ne']
  unfold rounded
  rw [if_pos ⟨decimals, few⟩]
  by_cases same : fixed x precision = x
  · obtain ⟨n, multiple⟩ := fixed_multiple x precision
    rw [if_pos same, ← same, multiple, div_mul_cancel₀ _ positive.ne', units_whole]
  · rw [if_neg same]
    by_cases captured : Captured (x * 10 ^ precision) (round (x * 10 ^ precision / (10 : ℕ)))
    · rw [if_neg, coarse, units_captured captured]
      · push_cast
        rfl
      · rw [unit_le_fixed_iff (abs_nonneg _), off]
        exact not_le.2 (captured_iff.1 captured)
    · rw [if_pos, fixed_of_nonneg nonneg, ← round_eq, units, if_neg captured]
      rw [unit_le_fixed_iff (abs_nonneg _), off]
      exact not_lt.1 (captured_iff.not.1 captured)

structure Projection (unit : α) (r : α → α) : Prop where
  multiple : ∀ x, ∃ n : ℤ, r x = n * unit
  near : ∀ x, |r x - x| < 19 / 20 * unit
  fixes : ∀ n : ℤ, r (n * unit) = n * unit
  idempotent : ∀ x, r (r x) = r x
  odd : ∀ x, r (-x) = -r x
  monotone : Monotone r

theorem rounded_projection {precision : ℤ} (decimals : 0 < precision) (few : precision < 20) :
    Projection (1 / 10 ^ precision : α) (rounded precision (1 / 10 ^ precision)) := by
  have positive := scale_pos (α := α) precision
  have kept : places precision = precision := if_pos ⟨decimals, few⟩
  have multiple (x : α) : ∃ n : ℤ, rounded precision (1 / 10 ^ precision) x =
      n * (1 / 10 ^ precision) := by
    obtain ⟨n, multiple⟩ := rounded_multiple precision (1 / 10 ^ precision) x
    rw [kept] at multiple
    exact ⟨n, by rw [multiple, mul_one_div]⟩
  have fixes (n : ℤ) : rounded precision (1 / 10 ^ precision) (n * (1 / 10 ^ precision) : α) =
      n * (1 / 10 ^ precision) :=
    rounded_of_multiple _ ⟨n, by rw [kept, mul_one_div]⟩
  refine ⟨multiple, rounded_within decimals few, fixes, ?_, rounded_neg _ _, ?_⟩
  · intro x
    obtain ⟨n, same⟩ := multiple x
    rw [same, fixes]
  · apply monotone_of_odd_of_monotoneOn_nonneg (rounded_neg _ _)
    intro x nonneg y later ordered
    rw [rounded_units decimals few nonneg, rounded_units decimals few later,
      div_le_div_iff_of_pos_right positive, Int.cast_le]
    exact units_mono (mul_le_mul_of_nonneg_right ordered positive.le)

end Grid

open scoped PathData.Exact

variable {α : Type} [Field α] [LinearOrder α] [IsStrictOrderedRing α] [FloorRing α] [Exact.Roots α]

theorem round_projects {o : Options α} (decimals : 0 < o.precision) (few : o.precision < 20) :
    ∃ r, o.error = .ok (1 / 10 ^ o.precision) ∧
      (∀ x, o.round (1 / 10 ^ o.precision) x = .ok (r x)) ∧
      Grid.Projection (1 / 10 ^ o.precision) r :=
  ⟨Grid.rounded o.precision (1 / 10 ^ o.precision), Exact.error_eq o,
    Exact.round_eq o.precision (1 / 10 ^ o.precision), Grid.rounded_projection decimals few⟩

def thousandths : Options ℚ := { flags := {}, makeArcs := none, precision := 3 }

-- The last number that is drawn to two places, and the first one that is not.
theorem round_projects_uneven :
    0 < thousandths.precision ∧ thousandths.precision < 20 ∧
      ∃ r, thousandths.error = .ok (1 / 1000) ∧ (∀ x, thousandths.round (1 / 1000) x = .ok (r x)) ∧
        Grid.Projection (1 / 1000) r ∧ r (12094 / 100000) = 12 / 100 ∧
        r (12095 / 100000) = 121 / 1000 := by
  have decimals : 0 < thousandths.precision := by decide
  have few : thousandths.precision < 20 := by decide
  have unit : (1 / 10 ^ thousandths.precision : ℚ) = 1 / 1000 := by
    change (1 / 10 ^ (3 : ℤ) : ℚ) = 1 / 1000
    norm_num
  obtain ⟨r, error, rounds, projection⟩ := round_projects decimals few
  rw [unit] at error rounds projection
  have drawn : thousandths.round (1 / 1000) (12094 / 100000) = .ok (12 / 100) := by
    decide +kernel
  have free : thousandths.round (1 / 1000) (12095 / 100000) = .ok (121 / 1000) := by
    decide +kernel
  rw [rounds] at drawn free
  exact ⟨decimals, few, r, error, rounds, projection, Except.ok.inj drawn, Except.ok.inj free⟩

end PathData
