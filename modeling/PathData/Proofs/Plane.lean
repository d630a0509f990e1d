import Mathlib
import PathData.Proofs.Exact

namespace PathData
namespace Plane

section Points

variable {α : Type} [Field α]

-- The point on the way from `a` to `b` after the part `t` of it.
def toward (a b : Point α) (t : α) : Point α :=
  ⟨a.x + t * (b.x - a.x), a.y + t * (b.y - a.y)⟩

-- The square of a distance.
def apart (p q : Point α) : α :=
  (p.x - q.x) ^ 2 + (p.y - q.y) ^ 2

theorem apart_self (p : Point α) : apart p p = 0 := by
  unfold apart
  ring

theorem toward_zero (a b : Point α) : toward a b 0 = a :=
  Point.ext (by simp [toward]) (by simp [toward])

theorem toward_one (a b : Point α) : toward a b 1 = b :=
  Point.ext (by simp [toward]) (by simp [toward])

theorem toward_self (a : Point α) (t : α) : toward a a t = a :=
  Point.ext (by simp [toward]) (by simp [toward])

theorem toward_toward (a b : Point α) (s t : α) :
    toward a (toward a b s) t = toward a b (t * s) :=
  Point.ext (by simp only [toward]; ring) (by simp only [toward]; ring)

theorem apart_toward (a b c : Point α) (t : α) :
    apart (toward a b t) (toward a c t) = t ^ 2 * apart b c := by
  unfold apart toward
  ring

theorem apart_foot {a b c : Point α} {t : α}
    (foot : t * apart c a = (b.x - a.x) * (c.x - a.x) + (b.y - a.y) * (c.y - a.y)) :
    apart b (toward a c t) * apart c a =
      ((c.x - a.x) * (b.y - a.y) - (c.y - a.y) * (b.x - a.x)) ^ 2 := by
  unfold apart toward at *
  linear_combination (t * ((c.x - a.x) ^ 2 + (c.y - a.y) ^ 2) -
    ((b.x - a.x) * (c.x - a.x) + (b.y - a.y) * (c.y - a.y))) * foot

end Points

variable {α : Type} [Field α] [LinearOrder α] [IsStrictOrderedRing α]

theorem apart_nonneg (p q : Point α) : 0 ≤ apart p q :=
  add_nonneg (sq_nonneg _) (sq_nonneg _)

theorem eq_of_apart {p q : Point α} (together : apart p q ≤ 0) : p = q := by
  obtain ⟨onX, onY⟩ := (add_eq_zero_iff_of_nonneg (sq_nonneg (p.x - q.x)) (sq_nonneg _)).1
    (le_antisymm together (apart_nonneg p q))
  exact Point.ext (sub_eq_zero.1 (pow_eq_zero_iff two_ne_zero |>.1 onX))
    (sub_eq_zero.1 (pow_eq_zero_iff two_ne_zero |>.1 onY))

theorem apart_pos {p q : Point α} (distinct : p ≠ q) : 0 < apart p q :=
  lt_of_not_ge fun together => distinct (eq_of_apart together)

theorem apart_toward_le {p q p' q' : Point α} {bound t : α} (first : apart p p' ≤ bound)
    (second : apart q q' ≤ bound) (start : 0 ≤ t) (stop : t ≤ 1) :
    apart (toward p q t) (toward p' q' t) ≤ bound := by
  have split : apart (toward p q t) (toward p' q' t) = (1 - t) * apart p p' + t * apart q q' -
      t * (1 - t) * (((p.x - p'.x) - (q.x - q'.x)) ^ 2 + ((p.y - p'.y) - (q.y - q'.y)) ^ 2) := by
    unfold apart toward
    ring
  have turned : 0 ≤ t * (1 - t) *
      (((p.x - p'.x) - (q.x - q'.x)) ^ 2 + ((p.y - p'.y) - (q.y - q'.y)) ^ 2) :=
    mul_nonneg (mul_nonneg start (sub_nonneg.2 stop)) (add_nonneg (sq_nonneg _) (sq_nonneg _))
  have before := mul_le_mul_of_nonneg_left first (sub_nonneg.2 stop)
  have after := mul_le_mul_of_nonneg_left second start
  linarith

-- The triangle inequality.
theorem apart_lt_add {p q r : Point α} {d e : α} (first : apart p q < d ^ 2)
    (second : apart q r ≤ e ^ 2) (wide : 0 ≤ d) (more : 0 ≤ e) : apart p r < (d + e) ^ 2 := by
  have along : ((p.x - q.x) * (q.x - r.x) + (p.y - q.y) * (q.y - r.y)) ^ 2 ≤ (d * e) ^ 2 := by
    have across := sq_nonneg ((p.x - q.x) * (q.y - r.y) - (p.y - q.y) * (q.x - r.x))
    have both : apart p q * apart q r ≤ d ^ 2 * e ^ 2 :=
      mul_le_mul first.le second (apart_nonneg q r) (sq_nonneg d)
    unfold apart at both
    linarith
  have most := le_trans (le_abs_self _) (abs_le_of_sq_le_sq along (mul_nonneg wide more))
  unfold apart at first second ⊢
  linarith

-- Within `r` of some point on the line from `a` to `b`.
def NearLine (r : α) (v a b : Point α) : Prop :=
  ∃ t, 0 ≤ t ∧ t ≤ 1 ∧ apart v (toward a b t) < r ^ 2

theorem NearLine.extend {r e : α} {v a b c : Point α} (near : NearLine r v a b) (wide : 0 ≤ r)
    (close : NearLine e b a c) (more : 0 ≤ e) : NearLine (r + e) v a c := by
  obtain ⟨t, start, stop, here⟩ := near
  obtain ⟨s, start', stop', there⟩ := close
  refine ⟨t * s, mul_nonneg start start', mul_le_one₀ stop start' stop', ?_⟩
  have moved : apart (toward a b t) (toward a c (t * s)) ≤ e ^ 2 := by
    rw [← toward_toward, apart_toward]
    have shrinks : t ^ 2 ≤ 1 := pow_le_one₀ start stop
    calc t ^ 2 * apart b (toward a c s)
        ≤ 1 * apart b (toward a c s) := mul_le_mul_of_nonneg_right shrinks (apart_nonneg _ _)
      _ ≤ e ^ 2 := by rw [one_mul]; exact there.le
  exact apart_lt_add here moved wide more

theorem near_of_cross {a b c : Point α} {length error : α}
    (forward : 0 < (b.x - a.x) * (c.x - b.x) + (b.y - a.y) * (c.y - b.y))
    (measured : length ^ 2 = apart c a) (positive : 0 < length)
    (small : |(c.x - a.x) * (b.y - a.y) - (c.y - a.y) * (b.x - a.x)| / length < error) :
    NearLine error b a c := by
  have square : 0 < apart c a := measured ▸ pow_pos positive 2
  have foot := div_mul_cancel₀ ((b.x - a.x) * (c.x - a.x) + (b.y - a.y) * (c.y - a.y)) square.ne'
  refine ⟨((b.x - a.x) * (c.x - a.x) + (b.y - a.y) * (c.y - a.y)) / apart c a, ?_, ?_, ?_⟩
  · apply div_nonneg _ square.le
    have := apart_nonneg b a
    unfold apart at this
    linarith
  · rw [div_le_one square]
    have := apart_nonneg c b
    unfold apart at this ⊢
    linarith
  · have fallen := apart_foot foot
    rw [← sq_abs, ← measured, ← eq_div_iff (pow_pos positive 2).ne', ← div_pow] at fallen
    rw [measured] at fallen
    rw [fallen]
    exact pow_lt_pow_left₀ small (div_nonneg (abs_nonneg _) positive.le) two_ne_zero

end Plane

namespace Exact

-- A length that is zero for nothing but the zero offset.
class Measures (α : Type) [Field α] [LinearOrder α] [Roots α] : Prop where
  hypot_pos (x y : α) (offset : x ≠ 0 ∨ y ≠ 0) : 0 < Roots.hypot x y

class Lengths (α : Type) [Field α] [LinearOrder α] [Roots α] : Prop where
  hypot_nonneg (x y : α) : 0 ≤ Roots.hypot x y
  hypot_sq (x y : α) : Roots.hypot x y ^ 2 = x ^ 2 + y ^ 2

instance measures_of_lengths {α : Type} [Field α] [LinearOrder α] [IsStrictOrderedRing α]
    [Roots α] [Lengths α] : Measures α where
  hypot_pos x y offset := by
    refine lt_of_le_of_ne (Lengths.hypot_nonneg x y) ?_
    intro zero
    have square := Lengths.hypot_sq x y
    rw [← zero, zero_pow two_ne_zero] at square
    obtain ⟨onX, onY⟩ := (add_eq_zero_iff_of_nonneg (sq_nonneg x) (sq_nonneg y)).1 square.symm
    rcases offset with left | right
    · exact left (pow_eq_zero_iff two_ne_zero |>.1 onX)
    · exact right (pow_eq_zero_iff two_ne_zero |>.1 onY)

theorem wholeRoot_pos {n k : ℕ} (positive : 0 < n) (root : wholeRoot? n = some k) : 0 < k := by
  have square : k * k = n := by simpa using List.find?_some root
  by_contra zero
  rw [Nat.eq_zero_of_not_pos zero] at square
  omega

theorem root_pos {x r : ℚ} (positive : 0 < x) (root : root? x = some r) : 0 < r := by
  have size : 0 < x.num.toNat := by
    have := Rat.num_pos.2 positive
    omega
  unfold root? at root
  rw [if_neg positive.not_gt] at root
  split at root
  · rename_i a b above below
    cases root
    have up := wholeRoot_pos size above
    have down := wholeRoot_pos x.den_pos below
    positivity
  · cases root

instance : Measures ℚ where
  hypot_pos x y offset := by
    have square : 0 < x * x + y * y := by
      rcases offset with left | right
      · exact add_pos_of_pos_of_nonneg (mul_self_pos.2 left) (mul_self_nonneg y)
      · exact add_pos_of_nonneg_of_pos (mul_self_nonneg x) (mul_self_pos.2 right)
    change 0 < (root? (x * x + y * y)).getD (|x| + |y|)
    cases root : root? (x * x + y * y) with
    | some r => exact root_pos square root
    | none =>
      rcases offset with left | right
      · exact add_pos_of_pos_of_nonneg (abs_pos.2 left) (abs_nonneg y)
      · exact add_pos_of_nonneg_of_pos (abs_nonneg x) (abs_pos.2 right)

open Classical in
noncomputable scoped instance reals : Roots ℝ where
  sqrt x := if x < 0 then .error .domain else .ok √x
  hypot x y := √(x ^ 2 + y ^ 2)
  numeral x :=
    match (List.range 20).find? fun places => ∃ n : ℤ, x * ((10 : ℕ) : ℝ) ^ places = n with
    | some places => .finite ⟨x < 0, ⌊x * ((10 : ℕ) : ℝ) ^ places⌋.natAbs, -places⟩
    | none => .notANumber

instance : Lengths ℝ where
  hypot_nonneg _ _ := Real.sqrt_nonneg _
  hypot_sq x y := Real.sq_sqrt (add_nonneg (sq_nonneg x) (sq_nonneg y))

end Exact
end PathData
