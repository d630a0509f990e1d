import Mathlib
import PathData.Proofs.FilterRemoval

namespace PathData

open scoped PathData.Exact
open Plane

namespace Segment

theorem cubicAt_raised (a c b : Point ℝ) (t : ℝ) :
    cubicAt a (toward a c (2 / 3)) (toward b c (2 / 3)) b t = quadraticAt a c b t := by
  unfold cubicAt quadraticAt toward
  refine Point.ext ?_ ?_ <;> dsimp only <;> ring

theorem cubicAt_sub_quadraticAt (a c1 c2 b : Point ℝ) (t : ℝ) :
    let first := toward a c1 (3 / 2)
    let second := toward b c2 (3 / 2)
    let drawn := quadraticAt a (toward first second (1 / 2)) b t
    (cubicAt a c1 c2 b t).x - drawn.x = t * (1 - t) * (1 - 2 * t) * (first.x - second.x) ∧
      (cubicAt a c1 c2 b t).y - drawn.y = t * (1 - t) * (1 - 2 * t) * (first.y - second.y) := by
  unfold cubicAt quadraticAt toward
  constructor <;> dsimp only <;> ring

end Segment

namespace Filter

open Segment

-- The exact maximum on the right of the middle is at (1 - 1 / √3) / 2.
theorem skew_le {s : ℝ} (low : -1 ≤ s) : s * (1 - s ^ 2) ≤ 2 / 5 := by
  have touching := mul_nonneg (sq_nonneg (s - 29 / 50)) (show 0 ≤ s + 29 / 25 by linarith)
  linarith

theorem abs_skew_le {t : ℝ} (start : 0 ≤ t) (stop : t ≤ 1) :
    |t * (1 - t) * (1 - 2 * t)| ≤ 1 / 10 := by
  have above := skew_le (s := 1 - 2 * t) (by linarith)
  have below := skew_le (s := -(1 - 2 * t)) (by linarith)
  rw [abs_le]
  constructor <;> linarith

theorem asQuadratic_eq_some_iff {a c1 c2 b c : Point ℝ} {error : ℝ} :
    asQuadratic? a c1 c2 b error = some c ↔
      Grid.Close (2 * error) (toward a c1 (3 / 2)) (toward b c2 (3 / 2)) ∧
        toward (toward a c1 (3 / 2)) (toward b c2 (3 / 2)) (1 / 2) = c := by
  have aimed (p q : Point ℝ) :
      (⟨(3 * q.x - p.x) / 2, (3 * q.y - p.y) / 2⟩ : Point ℝ) = toward p q (3 / 2) := by
    unfold toward
    refine Point.ext ?_ ?_ <;> dsimp only <;> ring
  have middle (p q : Point ℝ) :
      (⟨(p.x + q.x) / 2, (p.y + q.y) / 2⟩ : Point ℝ) = toward p q (1 / 2) := by
    unfold toward
    refine Point.ext ?_ ?_ <;> dsimp only <;> ring
  unfold asQuadratic?
  simp only [Exact.literal_ofNat]
  rw [← near_iff, ← aimed a c1, ← aimed b c2, ← middle]
  split <;> simp_all

theorem quadratic_of_cubic :
    (∀ (a c b : Point ℝ) (error : ℝ), 0 < error →
      asQuadratic? a (toward a c (2 / 3)) (toward b c (2 / 3)) b error = some c ∧
        ∀ t, cubicAt a (toward a c (2 / 3)) (toward b c (2 / 3)) b t = quadraticAt a c b t) ∧
    ∀ (a c1 c2 b c : Point ℝ) (error : ℝ), asQuadratic? a c1 c2 b error = some c →
      ∀ t, 0 ≤ t → t ≤ 1 → Grid.Close (error / 5) (cubicAt a c1 c2 b t) (quadraticAt a c b t) := by
  constructor
  · intro a c b error positive
    have back (p : Point ℝ) : toward p (toward p c (2 / 3)) (3 / 2) = c := by
      have whole : (3 / 2 * (2 / 3) : ℝ) = 1 := by norm_num
      rw [toward_toward, whole, toward_one]
    refine ⟨?_, cubicAt_raised a c b⟩
    rw [asQuadratic_eq_some_iff, back, back]
    exact ⟨Grid.Close.refl (by linarith) c, toward_self c (1 / 2)⟩
  · intro a c1 c2 b c error found t start stop
    obtain ⟨close, rfl⟩ := asQuadratic_eq_some_iff.1 found
    obtain ⟨offX, offY⟩ := cubicAt_sub_quadraticAt a c1 c2 b t
    have small := abs_skew_le start stop
    have within {d : ℝ} (near : |d| < 2 * error) :
        |t * (1 - t) * (1 - 2 * t) * d| < error / 5 := by
      rw [abs_mul]
      have scaled := mul_le_mul_of_nonneg_right small (abs_nonneg d)
      linarith
    unfold Grid.Close
    rw [offX, offY]
    exact ⟨within close.1, within close.2⟩

theorem quadratic_of_cubic_uneven :
    asQuadratic? ⟨0, 0⟩ ⟨2, 4⟩ ⟨4, 41 / 10⟩ ⟨6, 0⟩ (1 / 10 : ℝ) = some ⟨3, 243 / 40⟩ ∧
      Grid.Close (1 / 10 / 5) (cubicAt ⟨0, 0⟩ ⟨2, 4⟩ ⟨4, 41 / 10⟩ ⟨6, 0⟩ (1 / 5))
        (quadraticAt ⟨0, 0⟩ ⟨3, 243 / 40⟩ ⟨6, 0⟩ (1 / 5)) := by
  have found : asQuadratic? ⟨0, 0⟩ ⟨2, 4⟩ ⟨4, 41 / 10⟩ ⟨6, 0⟩ (1 / 10 : ℝ) =
      some ⟨3, 243 / 40⟩ := by
    rw [asQuadratic_eq_some_iff]
    unfold Grid.Close toward
    norm_num [abs_lt]
  exact ⟨found, quadratic_of_cubic.2 _ _ _ _ _ _ found (1 / 5) (by norm_num) (by norm_num)⟩

end Filter

namespace Plane

-- Within `error` of the line through two points, and not farther beyond either of them than that.
-- `s` is the part of the way from one to the other at which the point falls on the line.
def Beside (a b : Point ℝ) (error : ℝ) (p : Point ℝ) : Prop :=
  ∃ s, s * apart b a = (p.x - a.x) * (b.x - a.x) + (p.y - a.y) * (b.y - a.y) ∧
    apart p (toward a b s) ≤ error ^ 2 ∧
    s * √(apart b a) ∈ Set.Icc (-error) (√(apart b a) + error)

theorem Beside.toward {a b p q : Point ℝ} {error t : ℝ} (first : Beside a b error p)
    (second : Beside a b error q) (start : 0 ≤ t) (stop : t ≤ 1) :
    Beside a b error (toward p q t) := by
  obtain ⟨s, foot, near, along⟩ := first
  obtain ⟨r, foot', near', along'⟩ := second
  refine ⟨s + t * (r - s), ?_, ?_, ?_⟩
  · unfold Plane.toward
    linear_combination (1 - t) * foot + t * foot'
  · have moved : Plane.toward a b (s + t * (r - s)) =
        Plane.toward (Plane.toward a b s) (Plane.toward a b r) t := by
      unfold Plane.toward
      refine Point.ext ?_ ?_ <;> dsimp only <;> ring
    rw [moved]
    exact apart_toward_le near near' start stop
  · have between := (convex_Icc _ _).add_smul_sub_mem along along' ⟨start, stop⟩
    rw [smul_eq_mul] at between
    have same : (s + t * (r - s)) * √(apart b a) =
        s * √(apart b a) + t * (r * √(apart b a) - s * √(apart b a)) := by ring
    rwa [same]

theorem Beside.ends {error : ℝ} (nonneg : 0 ≤ error) (a b : Point ℝ) :
    Beside a b error a ∧ Beside a b error b := by
  have long := Real.sqrt_nonneg (apart b a)
  constructor
  · refine ⟨0, by ring, ?_, ?_⟩
    · rw [toward_zero, apart_self]
      positivity
    · rw [zero_mul]
      exact ⟨by linarith, by linarith⟩
  · refine ⟨1, ?_, ?_, ?_⟩
    · unfold apart
      ring
    · rw [toward_one, apart_self]
      positivity
    · rw [one_mul]
      exact ⟨by linarith, by linarith⟩

theorem Beside.on_chord {a b p : Point ℝ} (distinct : a ≠ b) (beside : Beside a b 0 p) :
    ∃ s, 0 ≤ s ∧ s ≤ 1 ∧ p = Plane.toward a b s := by
  obtain ⟨s, _, near, low, high⟩ := beside
  have long : 0 < √(apart b a) := Real.sqrt_pos.2 (apart_pos distinct.symm)
  rw [neg_zero] at low
  rw [add_zero] at high
  refine ⟨s, nonneg_of_mul_nonneg_left low long, le_of_mul_le_mul_right ?_ long, ?_⟩
  · rwa [one_mul]
  · rw [zero_pow two_ne_zero] at near
    exact eq_of_apart near

end Plane

section Straightness

variable {a b p : Point ℝ} {error : ℝ}

theorem liesAlong_iff (distinct : a ≠ b) (nonneg : 0 ≤ error) :
    liesAlong (b - a) √(apart b a) error (p - a) = true ↔ Beside a b error p := by
  have square : 0 < apart b a := apart_pos distinct.symm
  have long : 0 < √(apart b a) := Real.sqrt_pos.2 square
  have measured : √(apart b a) ^ 2 = apart b a := Real.sq_sqrt square.le
  have accepted : liesAlong (b - a) √(apart b a) error (p - a) = true ↔
      |(b.x - a.x) * (p.y - a.y) - (b.y - a.y) * (p.x - a.x)| / √(apart b a) ≤ error ∧
        ((p.x - a.x) * (b.x - a.x) + (p.y - a.y) * (b.y - a.y)) / √(apart b a) ∈
          Set.Icc (-error) (√(apart b a) + error) := by
    change (if error < |(b.x - a.x) * (p.y - a.y) - (b.y - a.y) * (p.x - a.x)| / √(apart b a)
      then false else !(decide (_ < -error) || decide (√(apart b a) + error < _))) = true ↔ _
    split
    · rename_i far
      simp [not_le.2 far]
    · rename_i near
      simp only [Bool.not_eq_true', Bool.or_eq_false_iff, decide_eq_false_iff_not, not_lt]
      exact (and_iff_right (not_lt.1 near)).symm
  -- Where the point falls on the line, both tests are those of the band.
  have falls {s : ℝ} (foot : s * apart b a =
      (p.x - a.x) * (b.x - a.x) + (p.y - a.y) * (b.y - a.y)) :
      (|(b.x - a.x) * (p.y - a.y) - (b.y - a.y) * (p.x - a.x)| / √(apart b a) ≤ error ↔
        apart p (toward a b s) ≤ error ^ 2) ∧
      ((p.x - a.x) * (b.x - a.x) + (p.y - a.y) * (b.y - a.y)) / √(apart b a) =
        s * √(apart b a) := by
    constructor
    · have fallen := apart_foot foot
      rw [← sq_abs, ← measured, ← eq_div_iff (pow_pos long 2).ne', ← div_pow] at fallen
      rw [fallen, sq_le_sq₀ (div_nonneg (abs_nonneg _) long.le) nonneg]
    · rw [← foot, div_eq_iff long.ne', mul_assoc, ← sq, measured]
  rw [accepted]
  constructor
  · rintro ⟨across, along⟩
    obtain ⟨near, measure⟩ := falls (div_mul_cancel₀ _ square.ne')
    exact ⟨_, div_mul_cancel₀ _ square.ne', near.1 across, measure ▸ along⟩
  · rintro ⟨s, foot, near, along⟩
    obtain ⟨across, measure⟩ := falls foot
    exact ⟨across.2 near, measure ▸ along⟩

theorem isStraight_iff (nonneg : 0 ≤ error) (controls : List (Point ℝ)) :
    isStraight (a :: (controls ++ [b])) error = .ok true ↔
      a ≠ b ∧ ∀ p ∈ controls, Beside a b error p := by
  have last : (a :: (controls ++ [b])).getLast? = some b := by
    rw [← List.cons_append, List.getLast?_concat]
  have square : (b - a).dot (b - a) = apart b a := by
    change (b.x - a.x) * (b.x - a.x) + (b.y - a.y) * (b.y - a.y) = apart b a
    unfold apart
    ring
  unfold isStraight
  simp only [last, List.dropLast_concat, square, Exact.literal_zero]
  by_cases same : a = b
  · rw [same, apart_self]
    simp [pure, Except.pure]
  · have positive : 0 < apart b a := apart_pos (Ne.symm same)
    have root : (Scalar.sqrt (apart b a) : Except Fault ℝ) = .ok √(apart b a) :=
      if_neg positive.not_gt
    rw [if_neg (by simpa using positive.ne'), root]
    change Except.ok (controls.all _) = Except.ok true ↔ _
    rw [Except.ok.injEq, List.all_eq_true]
    simp only [liesAlong_iff same nonneg]
    exact (and_iff_right same).symm

end Straightness

namespace Segment

theorem curve_points {α : Type} {g : Segment α} (curve : g.isCurve = true) :
    ∃ controls, g.points = g.start :: (controls ++ [g.stop]) := by
  unfold Segment.points
  cases shape : g.shape with
  | cubic c1 c2 => exact ⟨[c1, c2], rfl⟩
  | quadratic c => exact ⟨[c], rfl⟩
  | _ => simp [Segment.isCurve, Segment.kind, shape] at curve

theorem straight_curve_beside {g : Segment ℝ} {error : ℝ} (curve : g.isCurve = true)
    (nonneg : 0 ≤ error) (straight : isStraight g.points error = .ok true) :
    g.start ≠ g.stop ∧ (∀ p, g.Draws p → Beside g.start g.stop error p) ∧
      (error = 0 → ∀ p, g.Draws p → ∃ s, 0 ≤ s ∧ s ≤ 1 ∧ p = toward g.start g.stop s) := by
  obtain ⟨controls, points⟩ := curve_points curve
  rw [points, isStraight_iff nonneg] at straight
  obtain ⟨distinct, inside⟩ := straight
  have notArc : g.kind ≠ .arc := by
    intro arc
    simp [Segment.isCurve, arc] at curve
  have all : ∀ p ∈ g.points, Beside g.start g.stop error p := by
    obtain ⟨start, stop⟩ := Beside.ends nonneg g.start g.stop
    rw [points, List.forall_mem_cons, List.forall_mem_append, List.forall_mem_singleton]
    exact ⟨start, inside, stop⟩
  have drawn (p : Point ℝ) (draws : g.Draws p) : Beside g.start g.stop error p :=
    draws.of_points notArc (fun _ _ _ first second => first.toward second) all
  refine ⟨distinct, drawn, ?_⟩
  rintro rfl p draws
  exact (drawn p draws).on_chord distinct

def swaying : Segment ℝ := ⟨⟨0, 0⟩, .cubic ⟨-1, 1⟩ ⟨1, -1⟩, ⟨1, 0⟩⟩

def level : Segment ℝ := ⟨⟨-1, -1⟩, .quadratic ⟨0, 0⟩, ⟨1, 1⟩⟩

theorem straight_curve_beside_swaying :
    (isStraight swaying.points 1 = .ok true ∧
      ∀ p, swaying.Draws p → Beside swaying.start swaying.stop 1 p) ∧
    isStraight level.points 0 = .ok true ∧
      ∀ p, level.Draws p → ∃ s, 0 ≤ s ∧ s ≤ 1 ∧ p = toward level.start level.stop s := by
  have sways : isStraight swaying.points 1 = .ok true := by
    refine (isStraight_iff (a := ⟨0, 0⟩) (b := ⟨1, 0⟩) zero_le_one [⟨-1, 1⟩, ⟨1, -1⟩]).2
      ⟨by simp, ?_⟩
    have length : √(apart (⟨1, 0⟩ : Point ℝ) ⟨0, 0⟩) = 1 := by
      rw [Real.sqrt_eq_one]
      norm_num [apart]
    rw [List.forall_mem_cons, List.forall_mem_singleton]
    constructor
    · refine ⟨-1, ?_, ?_, ?_⟩
      · norm_num [apart]
      · norm_num [apart, toward]
      · rw [length]
        norm_num
    · refine ⟨1, ?_, ?_, ?_⟩
      · norm_num [apart]
      · norm_num [apart, toward]
      · rw [length]
        norm_num
  have flat : isStraight level.points 0 = .ok true := by
    refine (isStraight_iff (a := ⟨-1, -1⟩) (b := ⟨1, 1⟩) le_rfl [⟨0, 0⟩]).2 ⟨?_, ?_⟩
    · norm_num
    · rw [List.forall_mem_singleton]
      have long := Real.sqrt_nonneg (apart (⟨1, 1⟩ : Point ℝ) ⟨-1, -1⟩)
      refine ⟨1 / 2, ?_, ?_, ?_⟩
      · norm_num [apart]
      · norm_num [apart, toward]
      · exact ⟨by linarith, by linarith⟩
  exact ⟨⟨sways, (straight_curve_beside rfl zero_le_one sways).2.1⟩, flat,
    (straight_curve_beside rfl le_rfl flat).2.2 rfl⟩

end Segment

end PathData
