import Mathlib
import PathData.Geometry.Segment
import PathData.Proofs.Plane

namespace PathData
namespace Ellipse

open Plane Real

noncomputable def spoke (angle : ℝ) : Point ℝ :=
  ⟨cos angle, sin angle⟩

-- The plane of the unit circle, as the ellipse lies in the plane. The rotation is in degrees.
noncomputable def place (e : EllipticArc ℝ) (center : Point ℝ) (scale : ℝ) (u : Point ℝ) :
    Point ℝ :=
  let phi := e.rotation * π / 180
  ⟨center.x + scale * (e.rx * u.x * cos phi - e.ry * u.y * sin phi),
    center.y + scale * (e.rx * u.x * sin phi + e.ry * u.y * cos phi)⟩

structure Course (e : EllipticArc ℝ) (start stop : Point ℝ) where
  center : Point ℝ
  scale : ℝ
  angle : ℝ
  turn : ℝ
  scaled : scale = 1 ∨ 1 < scale ∧ |turn| = π
  starts : place e center scale (spoke angle) = start
  stops : place e center scale (spoke (angle + turn)) = stop
  sweep : if e.sweep then 0 < turn else turn < 0
  large : if e.large then π ≤ |turn| else |turn| ≤ π
  once : |turn| < 2 * π

noncomputable def Course.point {e : EllipticArc ℝ} {start stop : Point ℝ}
    (course : Course e start stop) (t : ℝ) : Point ℝ :=
  place e course.center course.scale (spoke (course.angle + t * course.turn))

section Places

variable (e : EllipticArc ℝ) (center : Point ℝ) (scale : ℝ)

theorem apart_place (u v : Point ℝ) :
    apart (place e center scale u) (place e center scale v) =
      scale ^ 2 * (e.rx ^ 2 * (u.x - v.x) ^ 2 + e.ry ^ 2 * (u.y - v.y) ^ 2) := by
  have unit := sin_sq_add_cos_sq (e.rotation * π / 180)
  unfold apart place
  dsimp only
  linear_combination (scale ^ 2 * (e.rx ^ 2 * (u.x - v.x) ^ 2 + e.ry ^ 2 * (u.y - v.y) ^ 2)) * unit

theorem toward_place (u v : Point ℝ) (t : ℝ) :
    toward (place e center scale u) (place e center scale v) t =
      place e center scale (toward u v t) :=
  Point.ext (by simp only [toward, place]; ring) (by simp only [toward, place]; ring)

theorem apart_place_le (byX : 0 < e.rx) (byY : 0 < e.ry) (u v : Point ℝ) :
    apart (place e center scale u) (place e center scale v) ≤
      scale ^ 2 * (max e.rx e.ry ^ 2 * apart u v) := by
  have wideX := pow_le_pow_left₀ byX.le (le_max_left e.rx e.ry) 2
  have wideY := pow_le_pow_left₀ byY.le (le_max_right e.rx e.ry) 2
  rw [apart_place, apart, mul_add (max e.rx e.ry ^ 2)]
  gcongr

theorem le_apart_place (byX : 0 < e.rx) (byY : 0 < e.ry) (u v : Point ℝ) :
    scale ^ 2 * (min e.rx e.ry ^ 2 * apart u v) ≤
      apart (place e center scale u) (place e center scale v) := by
  have positive : 0 ≤ min e.rx e.ry := (lt_min byX byY).le
  have narrowX := pow_le_pow_left₀ positive (min_le_left e.rx e.ry) 2
  have narrowY := pow_le_pow_left₀ positive (min_le_right e.rx e.ry) 2
  rw [apart_place, apart, mul_add (min e.rx e.ry ^ 2)]
  gcongr

end Places

section Spokes

variable (m h x : ℝ)

theorem apart_spokes : apart (spoke (m - h)) (spoke (m + h)) = 4 * (1 - cos h ^ 2) := by
  have atM := sin_sq_add_cos_sq m
  have atH := sin_sq_add_cos_sq h
  simp only [apart, spoke, cos_add, sin_add, cos_sub, sin_sub]
  linear_combination 4 * sin h ^ 2 * atM + 4 * atH

theorem apart_spoke_middle :
    apart (spoke (m + x)) (toward (spoke (m - h)) (spoke (m + h)) (1 / 2)) =
      1 - 2 * cos h * cos x + cos h ^ 2 := by
  have atM := sin_sq_add_cos_sq m
  have atX := sin_sq_add_cos_sq x
  simp only [apart, spoke, toward, cos_add, sin_add, cos_sub, sin_sub]
  linear_combination ((cos x - cos h) ^ 2 + sin x ^ 2) * atM + atX

end Spokes

theorem spoke_near_middle (angle : ℝ) {turn t : ℝ} (half : |turn| ≤ π) (start : 0 ≤ t)
    (stop : t ≤ 1) :
    4 * apart (spoke (angle + t * turn)) (toward (spoke angle) (spoke (angle + turn)) (1 / 2)) ≤
      apart (spoke angle) (spoke (angle + turn)) := by
  -- Angles are counted from the middle of the arc.
  obtain ⟨m, h, rfl, rfl⟩ : ∃ m h, angle = m - h ∧ turn = 2 * h :=
    ⟨angle + turn / 2, turn / 2, by ring, by ring⟩
  have here : m - h + t * (2 * h) = m + (2 * t - 1) * h := by ring
  have there : m - h + 2 * h = m + h := by ring
  rw [here, there]
  have within : |(2 * t - 1) * h| ≤ |h| := by
    rw [abs_mul]
    exact mul_le_of_le_one_left (abs_nonneg h) (abs_le.2 ⟨by linarith, by linarith⟩)
  generalize (2 * t - 1) * h = x at within
  have quarter : |h| ≤ π / 2 := by
    rw [abs_mul, abs_two] at half
    linarith
  have inner : 0 ≤ cos h * (cos x - cos h) := by
    obtain ⟨above, below⟩ := abs_le.1 quarter
    apply mul_nonneg (cos_nonneg_of_neg_pi_div_two_le_of_le above below)
    have closer := cos_le_cos_of_nonneg_of_le_pi (abs_nonneg x) (by linarith [pi_pos]) within
    rw [cos_abs, cos_abs] at closer
    linarith
  rw [apart_spoke_middle, apart_spokes]
  linarith

theorem Course.near_middle {e : EllipticArc ℝ} {start stop : Point ℝ} (course : Course e start stop)
    (small : e.large = false) (byX : 0 < e.rx) (byY : 0 < e.ry) {t : ℝ} (from0 : 0 ≤ t)
    (upTo : t ≤ 1) :
    4 * min e.rx e.ry ^ 2 * apart (course.point t) (toward start stop (1 / 2)) ≤
      max e.rx e.ry ^ 2 * apart start stop := by
  have half : |course.turn| ≤ π := by
    have large := course.large
    rwa [small] at large
  have round := spoke_near_middle course.angle half from0 upTo
  obtain ⟨center, scale, angle, turn, _, rfl, rfl, _⟩ := course
  change 4 * min e.rx e.ry ^ 2 *
    apart (place e center scale (spoke (angle + t * turn))) _ ≤ _
  rw [toward_place]
  calc 4 * min e.rx e.ry ^ 2 * apart (place e center scale (spoke (angle + t * turn))) _
      ≤ 4 * min e.rx e.ry ^ 2 * (scale ^ 2 * (max e.rx e.ry ^ 2 * apart (spoke (angle + t * turn))
          (toward (spoke angle) (spoke (angle + turn)) (1 / 2)))) := by
        gcongr
        exact apart_place_le e center scale byX byY _ _
    _ = max e.rx e.ry ^ 2 * (scale ^ 2 * (min e.rx e.ry ^ 2 * (4 * apart (spoke (angle + t * turn))
          (toward (spoke angle) (spoke (angle + turn)) (1 / 2))))) := by ring
    _ ≤ max e.rx e.ry ^ 2 * (scale ^ 2 * (min e.rx e.ry ^ 2 *
          apart (spoke angle) (spoke (angle + turn)))) := by gcongr
    _ ≤ _ := by
        gcongr
        exact le_apart_place e center scale byX byY _ _

theorem exists_polar {u : Point ℝ} (offset : 0 < u.x ^ 2 + u.y ^ 2) :
    ∃ length angle, 0 < length ∧ u.x = length * cos angle ∧ u.y = length * sin angle := by
  let z : ℂ := ⟨u.x, u.y⟩
  refine ⟨‖z‖, z.arg, ?_, (z.norm_mul_cos_arg).symm, (z.norm_mul_sin_arg).symm⟩
  apply norm_pos_iff.2
  intro zero
  have onX : u.x = 0 := congrArg Complex.re zero
  have onY : u.y = 0 := congrArg Complex.im zero
  rw [onX, onY] at offset
  norm_num at offset

theorem exists_half {q : ℝ} (positive : 0 < q) (within : q ≤ 1) (large : Bool) :
    ∃ half, 0 < half ∧ half < π ∧ sin half = q ∧ (q = 1 → half = π / 2) ∧
      if large then π / 2 ≤ half else half ≤ π / 2 := by
  have up : 0 < arcsin q := arcsin_pos.2 positive
  have down := arcsin_le_pi_div_two q
  have back := sin_arcsin (by linarith) within
  cases large with
  | true =>
    refine ⟨π - arcsin q, by linarith [pi_pos], by linarith, ?_, ?_, ?_⟩
    · rw [sin_pi_sub, back]
    · rintro rfl
      rw [arcsin_one]
      ring
    · change π / 2 ≤ π - arcsin q
      linarith
  | false =>
    refine ⟨arcsin q, up, by linarith [pi_pos], back, ?_, down⟩
    rintro rfl
    exact arcsin_one

theorem exists_middle (direction : ℝ) {half : ℝ} (positive : 0 < half) (sweep : Bool) :
    ∃ middle h, |h| = half ∧ (if sweep then 0 < 2 * h else 2 * h < 0) ∧
      -sin middle * sin h = cos direction * sin half ∧
      cos middle * sin h = sin direction * sin half := by
  cases sweep with
  | true =>
    refine ⟨direction - π / 2, half, abs_of_pos positive, mul_pos two_pos positive, ?_, ?_⟩
    · rw [sin_sub_pi_div_two, neg_neg]
    · rw [cos_sub_pi_div_two]
  | false =>
    refine ⟨direction + π / 2, -half, ?_, ?_, ?_, ?_⟩
    · rw [abs_neg, abs_of_pos positive]
    · exact mul_neg_of_pos_of_neg two_pos (neg_neg_of_pos positive)
    · rw [sin_add_pi_div_two, sin_neg, neg_mul_neg]
    · rw [cos_add_pi_div_two, sin_neg, neg_mul_neg]

-- A turn whose chord is any given offset, on a circle that is scaled up only where it has to be.
theorem exists_turn {u : Point ℝ} (offset : 0 < u.x ^ 2 + u.y ^ 2) (sweep large : Bool) :
    ∃ scale angle turn, (scale = 1 ∨ 1 < scale ∧ |turn| = π) ∧
      scale * (cos (angle + turn) - cos angle) = 2 * u.x ∧
      scale * (sin (angle + turn) - sin angle) = 2 * u.y ∧
      (if sweep then 0 < turn else turn < 0) ∧ (if large then π ≤ |turn| else |turn| ≤ π) ∧
      |turn| < 2 * π := by
  obtain ⟨length, direction, positive, onX, onY⟩ := exists_polar offset
  obtain ⟨scale, scales, enough, least⟩ : ∃ scale, 0 < scale ∧ length ≤ scale ∧
      (scale = 1 ∨ 1 < scale ∧ length / scale = 1) := by
    by_cases reaches : length ≤ 1
    · exact ⟨1, one_pos, reaches, .inl rfl⟩
    · exact ⟨length, positive, le_rfl, .inr ⟨not_le.1 reaches, div_self positive.ne'⟩⟩
  obtain ⟨half, some, once, height, full, long⟩ :=
    exists_half (div_pos positive scales) ((div_le_one scales).2 enough) large
  rw [eq_div_iff scales.ne'] at height
  obtain ⟨middle, h, size, direct, byCos, bySin⟩ := exists_middle direction some sweep
  have turned : |2 * h| = 2 * half := by
    rw [abs_mul, abs_two, size]
  have there : middle - h + 2 * h = middle + h := by ring
  refine ⟨scale, middle - h, 2 * h, ?_, ?_, ?_, direct, ?_, ?_⟩
  · refine least.imp_right (And.imp_right fun one => ?_)
    rw [turned, full one]
    ring
  · rw [there, cos_add, cos_sub, onX]
    linear_combination 2 * scale * byCos + 2 * cos direction * height
  · rw [there, sin_add, sin_sub, onY]
    linear_combination 2 * scale * bySin + 2 * sin direction * height
  · rw [turned]
    cases large with
    | true =>
      change π ≤ 2 * half
      change π / 2 ≤ half at long
      linarith
    | false =>
      change 2 * half ≤ π
      change half ≤ π / 2 at long
      linarith
  · rw [turned]
    linarith

theorem exists_preimage (e : EllipticArc ℝ) (byX : 0 < e.rx) (byY : 0 < e.ry) (x y : ℝ) :
    let phi := e.rotation * π / 180
    ∃ u : Point ℝ, e.rx * u.x * cos phi - e.ry * u.y * sin phi = x ∧
      e.rx * u.x * sin phi + e.ry * u.y * cos phi = y := by
  intro phi
  have unit : sin phi ^ 2 + cos phi ^ 2 = 1 := sin_sq_add_cos_sq phi
  refine ⟨⟨(x * cos phi + y * sin phi) / e.rx, (y * cos phi - x * sin phi) / e.ry⟩, ?_, ?_⟩
  · field_simp
    linear_combination x * unit
  · field_simp
    linear_combination y * unit

theorem exists_course (e : EllipticArc ℝ) {start stop : Point ℝ} (byX : 0 < e.rx) (byY : 0 < e.ry)
    (different : start ≠ stop) : Nonempty (Course e start stop) := by
  let phi := e.rotation * π / 180
  -- Half of the chord, on the circle.
  obtain ⟨u, backX, backY⟩ :=
    exists_preimage e byX byY ((stop.x - start.x) / 2) ((stop.y - start.y) / 2)
  have offset : 0 < u.x ^ 2 + u.y ^ 2 := by
    by_contra none
    have zero := (add_eq_zero_iff_of_nonneg (sq_nonneg u.x) (sq_nonneg u.y)).1
      (le_antisymm (not_lt.1 none) (by positivity))
    rw [pow_eq_zero_iff two_ne_zero, pow_eq_zero_iff two_ne_zero] at zero
    rw [zero.1, zero.2] at backX backY
    apply different
    apply Point.ext
    · linarith
    · linarith
  obtain ⟨scale, angle, turn, scaled, onX, onY, sweep, large, once⟩ :=
    exists_turn offset e.sweep e.large
  let first := place e ⟨0, 0⟩ scale (spoke angle)
  refine ⟨⟨start.x - first.x, start.y - first.y⟩, scale, angle, turn, scaled, ?_, ?_, sweep, large,
    once⟩
  · apply Point.ext
    · simp only [first, place]
      ring
    · simp only [first, place]
      ring
  · apply Point.ext
    · simp only [first, place, spoke]
      linear_combination e.rx * cos phi * onX - e.ry * sin phi * onY + 2 * backX
    · simp only [first, place, spoke]
      linear_combination e.rx * sin phi * onX + e.ry * cos phi * onY + 2 * backY

end Ellipse
end PathData
