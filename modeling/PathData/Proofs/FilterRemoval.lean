import Mathlib
import PathData.Proofs.DrawnArcs
import PathData.Proofs.FilterLines

namespace PathData

open scoped PathData.Exact
open Plane

section Boxes

variable {α : Type} [Field α] [LinearOrder α] [IsStrictOrderedRing α]

theorem Grid.Close.toward {tolerance : α} {a b c : Point α} (first : Close tolerance a c)
    (second : Close tolerance b c) {t : α} (start : 0 ≤ t) (stop : t ≤ 1) :
    Close tolerance (toward a b t) c := by
  have inside (x c : α) : |x - c| < tolerance ↔ x ∈ Set.Ioo (c - tolerance) (c + tolerance) := by
    rw [abs_lt, Set.mem_Ioo, neg_lt_sub_iff_lt_add, sub_lt_iff_lt_add', sub_lt_iff_lt_add']
  have between {a b c : α} (first : |a - c| < tolerance) (second : |b - c| < tolerance) :
      |a + t * (b - a) - c| < tolerance := by
    rw [inside] at first second ⊢
    exact (convex_Ioo _ _).add_smul_sub_mem first second ⟨start, stop⟩
  exact ⟨between first.1 second.1, between first.2 second.2⟩

theorem Grid.Close.apart_lt {tolerance : α} {p q : Point α} (close : Close tolerance p q) :
    apart p q < 2 * tolerance ^ 2 := by
  have onX := sq_lt_sq' (abs_lt.1 close.1).1 (abs_lt.1 close.1).2
  have onY := sq_lt_sq' (abs_lt.1 close.2).1 (abs_lt.1 close.2).2
  unfold apart
  linarith

end Boxes

namespace Segment

noncomputable def quadraticAt (a c b : Point ℝ) (t : ℝ) : Point ℝ :=
  toward (toward a c t) (toward c b t) t

noncomputable def cubicAt (a c1 c2 b : Point ℝ) (t : ℝ) : Point ℝ :=
  toward (quadraticAt a c1 c2 t) (quadraticAt c1 c2 b t) t

inductive Draws (g : Segment ℝ) : Point ℝ → Prop where
  | line {t : ℝ} (shape : g.shape = .line) (start : 0 ≤ t) (stop : t ≤ 1) :
      Draws g (toward g.start g.stop t)
  | close {t : ℝ} (shape : g.shape = .close) (start : 0 ≤ t) (stop : t ≤ 1) :
      Draws g (toward g.start g.stop t)
  | quadratic {t : ℝ} (shape : g.shape = .quadratic c) (start : 0 ≤ t) (stop : t ≤ 1) :
      Draws g (quadraticAt g.start c g.stop t)
  | cubic {t : ℝ} (shape : g.shape = .cubic c1 c2) (start : 0 ≤ t) (stop : t ≤ 1) :
      Draws g (cubicAt g.start c1 c2 g.stop t)
  | arc {t : ℝ} (shape : g.shape = .arc e) (course : Ellipse.Course e g.start g.stop)
      (start : 0 ≤ t) (stop : t ≤ 1) : Draws g (course.point t)

theorem proper_of_kind {α : Type} [Scalar α] (g : Segment α) (notArc : g.kind ≠ .arc) :
    g.isDegenerateArc = false := by
  unfold Segment.isDegenerateArc
  split
  · rename_i shape
    refine absurd ?_ notArc
    simp [Segment.kind, shape]
  · rfl

theorem points_eq {α : Type} (g : Segment α) : g.points = g.start :: g.points.tail := by
  unfold Segment.points
  cases g.shape <;> rfl

theorem Draws.of_points {g : Segment ℝ} {P : Point ℝ → Prop} {p : Point ℝ} (draws : g.Draws p)
    (notArc : g.kind ≠ .arc)
    (between : ∀ a b t, P a → P b → 0 ≤ t → t ≤ 1 → P (toward a b t))
    (points : ∀ p ∈ g.points, P p) : P p := by
  unfold Segment.points at points
  cases draws with
  | line shape start stop | close shape start stop =>
    simp only [shape, List.forall_mem_cons] at points
    exact between _ _ _ points.1 points.2.1 start stop
  | @quadratic c t shape start stop =>
    simp only [shape, List.forall_mem_cons] at points
    obtain ⟨a, control, b, _⟩ := points
    have first := between _ _ t a control start stop
    have second := between _ _ t control b start stop
    exact between _ _ t first second start stop
  | @cubic c1 c2 t shape start stop =>
    simp only [shape, List.forall_mem_cons] at points
    obtain ⟨a, control1, control2, b, _⟩ := points
    have outer1 := between _ _ t a control1 start stop
    have inner := between _ _ t control1 control2 start stop
    have outer2 := between _ _ t control2 b start stop
    have first := between _ _ t outer1 inner start stop
    have second := between _ _ t inner outer2 start stop
    exact between _ _ t first second start stop
  | arc shape =>
    refine absurd ?_ notArc
    simp [Segment.kind, shape]

theorem Draws.close_of_points {g : Segment ℝ} {tolerance : ℝ} {p q : Point ℝ} (draws : g.Draws p)
    (notArc : g.kind ≠ .arc) (points : ∀ p ∈ g.points, Grid.Close tolerance p q) :
    Grid.Close tolerance p q :=
  draws.of_points notArc (fun _ _ _ first second => first.toward second) points

end Segment

-- How far an arc reaches whose ends lie in a box: the middle of the chord is in it, and the arc
-- goes on from there as far as the radii differ.
theorem Ellipse.Course.near_center {e : EllipticArc ℝ} {start stop q : Point ℝ} {tolerance : ℝ}
    (course : Course e start stop) (small : e.large = false) (byX : 0 < e.rx) (byY : 0 < e.ry)
    (positive : 0 < tolerance) (first : Grid.Close tolerance start q)
    (second : Grid.Close tolerance stop q) {t : ℝ} (from0 : 0 ≤ t) (upTo : t ≤ 1) :
    apart (course.point t) q < (√2 * (1 + max e.rx e.ry / min e.rx e.ry) * tolerance) ^ 2 := by
  have root : √2 ^ 2 = 2 := Real.sq_sqrt zero_le_two
  have narrow : 0 < min e.rx e.ry := lt_min byX byY
  have wide : 0 < max e.rx e.ry := lt_max_of_lt_left byX
  have middle : apart (toward start stop (1 / 2)) q ≤ (√2 * tolerance) ^ 2 := by
    have close := first.toward second (t := 1 / 2) (by norm_num) (by norm_num)
    rw [mul_pow, root]
    exact close.apart_lt.le
  have chord : apart start stop < 8 * tolerance ^ 2 := by
    have sides {a b c : ℝ} (first : |a - c| < tolerance) (second : |b - c| < tolerance) :
        |a - b| < 2 * tolerance := by
      rw [abs_sub_comm] at second
      linarith [abs_sub_le a c b]
    have far : Grid.Close (2 * tolerance) start stop :=
      ⟨sides first.1 second.1, sides first.2 second.2⟩
    have reach := far.apart_lt
    linarith
  have bulge : apart (course.point t) (toward start stop (1 / 2)) <
      (√2 * (max e.rx e.ry / min e.rx e.ry) * tolerance) ^ 2 := by
    have near := course.near_middle small byX byY from0 upTo
    rw [mul_pow, mul_pow, root, div_pow, mul_div_assoc', div_mul_eq_mul_div,
      lt_div_iff₀ (pow_pos narrow 2)]
    have scaled := mul_lt_mul_of_pos_left chord (pow_pos wide 2)
    linarith
  have both := apart_lt_add bulge middle (by positivity) (by positivity)
  have sum : √2 * (max e.rx e.ry / min e.rx e.ry) * tolerance + √2 * tolerance =
      √2 * (1 + max e.rx e.ry / min e.rx e.ry) * tolerance := by ring
  rwa [sum] at both

section Radii

variable {α : Type} [Field α] [LinearOrder α] [IsStrictOrderedRing α] [FloorRing α] [Exact.Roots α]

theorem Pen.draw_radii {pen : Pen α} {c : Command α} {e : EllipticArc α}
    (shape : (pen.draw c).1.shape = .arc e) : 0 ≤ e.rx ∧ 0 ≤ e.ry := by
  change (pen.shape (c.toAbsolute pen.position).body).1 = .arc e at shape
  cases body : (c.toAbsolute pen.position).body <;> rw [body] at shape <;> cases shape
  exact ⟨abs_nonneg _, abs_nonneg _⟩

theorem Filter.source_radii {cs : List (Command α)} {source : Source α} {rest : List (Source α)}
    {e : EllipticArc α} (ahead : (sourcesOf cs).drop k = source :: rest)
    (shape : source.segment.shape = .arc e) : 0 ≤ e.rx ∧ 0 ≤ e.ry := by
  have left := (drop_sources Pen.initial cs k).symm.trans ahead
  cases later : cs.drop k with
  | nil =>
    rw [later] at left
    cases left
  | cons c later' =>
    rw [later] at left
    cases left
    exact Pen.draw_radii shape

end Radii

namespace Filter

section Tests

variable {α : Type} [Field α] [LinearOrder α] [IsStrictOrderedRing α] [FloorRing α] [Exact.Roots α]
variable {f : Setup α} {s : State α}

omit [IsStrictOrderedRing α] in
theorem proper_arc_iff {g : Segment α} {e : EllipticArc α} (shape : g.shape = .arc e) :
    g.isDegenerateArc = false ↔ e.rx ≠ 0 ∧ e.ry ≠ 0 ∧ g.start ≠ g.stop := by
  unfold Segment.isDegenerateArc
  rw [shape]
  simp only [Bool.or_eq_false_iff, beq_eq_false_iff_ne, Exact.literal_zero, and_assoc]
  rw [← Bool.not_eq_true, same_iff]

omit [IsStrictOrderedRing α] in
theorem useless_iff {g : Segment α} (proper : g.isDegenerateArc = false) :
    isUseless f s g = true ↔ f.zeroLengthRemovalAllowed = true ∧
      (∀ p ∈ g.points.tail, Grid.Close f.error p s.cursor) ∧
      ∀ e, g.shape = .arc e → e.large = false := by
  have near : g.points.tail.all (fun p => p.near s.cursor f.error) = true ↔
      ∀ p ∈ g.points.tail, Grid.Close f.error p s.cursor := by
    simp only [List.all_eq_true, near_iff]
  unfold isUseless
  dsimp only
  rw [← near]
  split
  · rename_i e shape
    rw [if_neg]
    · simp only [Bool.and_eq_true, Bool.not_eq_true', shape, Shape.arc.injEq, forall_eq']
      tauto
    · rw [Bool.and_eq_true, same_iff]
      exact fun same => ((proper_arc_iff shape).1 proper).2.2 same.2
  · rename_i notArc
    rw [Bool.and_eq_true]
    exact ⟨fun useless => ⟨useless.1, useless.2, fun e shape => absurd shape (notArc e)⟩,
      fun useless => ⟨useless.1, useless.2.1⟩⟩

end Tests

section Reach

theorem reach_le_three {ratio : ℝ} (round : ratio ≤ 28 / 25) : √2 * (1 + ratio) ≤ 3 := by
  have root : √2 ≤ 75 / 53 := by
    rw [Real.sqrt_le_left (by norm_num)]
    norm_num
  calc √2 * (1 + ratio)
      ≤ √2 * (1 + 28 / 25) := by gcongr
    _ ≤ 75 / 53 * (1 + 28 / 25) := by gcongr
    _ = 3 := by norm_num

variable [Exact.Roots ℝ]

theorem dropped_near {fitter : ArcFitter ℝ} {options : Options ℝ} {style : Style} {error : ℝ}
    {cs : List (Command ℝ)} {s : State ℝ} {source : Source ℝ} {rest : List (Source ℝ)}
    (few : options.precision < 20) (unit : options.error = .ok error)
    (reached : Reached ⟨options, style, error, fitter⟩ (sourcesOf cs) s k)
    (ahead : (sourcesOf cs).drop k = source :: rest)
    (useless : isUseless ⟨options, style, error, fitter⟩ s source.segment = true) :
    (source.segment.kind ≠ .arc →
      ∀ p, source.segment.Draws p → Grid.Close error p s.cursor) ∧
    ∀ e, source.segment.shape = .arc e → source.segment.isDegenerateArc = false →
      0 < e.rx ∧ 0 < e.ry ∧ (∃ p, source.segment.Draws p) ∧
      ∀ p, source.segment.Draws p →
        apart p s.cursor < (√2 * (1 + max e.rx e.ry / min e.rx e.ry) * error) ^ 2 ∧
          (max e.rx e.ry ≤ 28 / 25 * min e.rx e.ry → apart p s.cursor < (3 * error) ^ 2) := by
  have keeps : Keeps (⟨options, style, error, fitter⟩ : Setup ℝ) := ⟨few, unit⟩
  obtain ⟨_, follows, _, _⟩ := source_ahead ahead
  have start : Grid.Close error source.segment.start s.cursor := by
    rw [follows.starts]
    exact (reached_accurate keeps reached).cursor.symm
  refine ⟨?_, ?_⟩
  · intro notArc p draws
    have proper := source.segment.proper_of_kind notArc
    have points : ∀ p ∈ source.segment.points, Grid.Close error p s.cursor := by
      rw [Segment.points_eq, List.forall_mem_cons]
      exact ⟨start, ((useless_iff proper).1 useless).2.1⟩
    exact draws.close_of_points notArc points
  · intro e shape proper
    obtain ⟨_, near, small⟩ := (useless_iff proper).1 useless
    obtain ⟨flatX, flatY, different⟩ := (proper_arc_iff shape).1 proper
    obtain ⟨sideX, sideY⟩ := source_radii ahead shape
    have byX := lt_of_le_of_ne sideX (Ne.symm flatX)
    have byY := lt_of_le_of_ne sideY (Ne.symm flatY)
    have stop : Grid.Close error source.segment.stop s.cursor := by
      apply near
      simp [Segment.points, shape]
    obtain ⟨course⟩ := Ellipse.exists_course e byX byY different
    refine ⟨byX, byY, ⟨_, .arc shape course le_rfl zero_le_one⟩, ?_⟩
    intro p draws
    have reach : apart p s.cursor < (√2 * (1 + max e.rx e.ry / min e.rx e.ry) * error) ^ 2 := by
      cases draws with
      | arc shape' course from0 upTo =>
        cases shape.symm.trans shape'
        exact course.near_center (small e shape) byX byY keeps.positive start stop from0 upTo
      | line shape' | close shape' | quadratic shape' | cubic shape' =>
        cases shape.symm.trans shape'
    refine ⟨reach, ?_⟩
    intro round
    have ratio : max e.rx e.ry / min e.rx e.ry ≤ 28 / 25 := by
      rwa [div_le_iff₀ (lt_min byX byY)]
    refine lt_of_lt_of_le reach ?_
    have positive : 0 ≤ error := keeps.positive.le
    gcongr
    exact reach_le_three ratio

end Reach

def risingArc (rx ry height : ℝ) : List (Command ℝ) :=
  [{ body := .move ⟨0, 0⟩ }, { body := .arc ⟨rx, ry, 0, 0, 1⟩ ⟨0, height⟩ }]

def thousandths : Options ℝ := { flags := {}, makeArcs := none, precision := 3 }

theorem sources_risingArc {rx ry : ℝ} (byX : 0 < rx) (byY : 0 < ry) (height : ℝ) :
    sourcesOf (risingArc rx ry height) =
      [⟨{ body := .move ⟨0, 0⟩ }, ⟨⟨0, 0⟩, .move, ⟨0, 0⟩⟩⟩,
       ⟨{ body := .arc ⟨rx, ry, 0, 0, 1⟩ ⟨0, height⟩ },
        ⟨⟨0, 0⟩, .arc ⟨rx, ry, 0, false, true⟩, ⟨0, height⟩⟩⟩] := by
  have origin : (.origin : Point ℝ) = ⟨0, 0⟩ := Point.ext Exact.literal_zero Exact.literal_zero
  have sameX : Scalar.abs rx = rx := abs_of_pos byX
  have sameY : Scalar.abs ry = ry := abs_of_pos byY
  have there (p : Point ℝ) : ⟨0, 0⟩ + p = p := origin ▸ origin_add p
  simp [sourcesOf, longhand, risingArc, Pen.drawAll, Pen.draw, Pen.shape, Pen.initial,
    Command.toAbsolute, Command.endPoint, Body.endPoint, origin, there, sameX, sameY]

theorem risingArc_useless {rx ry height : ℝ} (byX : 0 < rx) (byY : 0 < ry) (up : 0 < height)
    (short : height < 1 / 1000) :
    thousandths.error = .ok (1 / 1000) ∧ ∃ s source,
      Reached ⟨thousandths, {}, 1 / 1000, noFit⟩ (sourcesOf (risingArc rx ry height)) s 1 ∧
      (sourcesOf (risingArc rx ry height)).drop 1 = [source] ∧
      isUseless ⟨thousandths, {}, 1 / 1000, noFit⟩ s source.segment = true ∧ s.cursor = ⟨0, 0⟩ ∧
      source.segment = ⟨⟨0, 0⟩, .arc ⟨rx, ry, 0, false, true⟩, ⟨0, height⟩⟩ ∧
      source.segment.isDegenerateArc = false := by
  have unit : thousandths.error = .ok (1 / 1000) := by
    rw [Exact.error_eq]
    norm_num [thousandths]
  have keeps : Keeps (⟨thousandths, {}, 1 / 1000, noFit⟩ : Setup ℝ) :=
    ⟨show (3 : ℤ) < 20 by decide, unit⟩
  have sources := sources_risingArc byX byY height
  obtain ⟨s, reached, cursor⟩ := reached_first keeps sources
    ⟨.inl rfl, Grid.Multiple.zero _, Grid.Multiple.zero _⟩
  let arc : Segment ℝ := ⟨⟨0, 0⟩, .arc ⟨rx, ry, 0, false, true⟩, ⟨0, height⟩⟩
  have proper : arc.isDegenerateArc = false := by
    refine (proper_arc_iff rfl).2 ⟨byX.ne', byY.ne', ?_⟩
    intro same
    exact up.ne (congrArg Point.y same)
  refine ⟨unit, s, _, reached, congrArg (List.drop 1) sources, ?_, cursor, rfl, proper⟩
  refine (useless_iff proper).2 ⟨rfl, List.forall_mem_singleton.2 ?_, ?_⟩
  · rw [cursor]
    refine ⟨?_, ?_⟩
    · norm_num
    · change |height - 0| < 1 / 1000
      rwa [sub_zero, abs_of_pos up]
  · intro e shape
    cases shape
    rfl

theorem dropped_near_circular : ∃ error s source rest, thousandths.error = .ok error ∧
    Reached ⟨thousandths, {}, error, noFit⟩ (sourcesOf (risingArc 1 1 (1 / 2000))) s 1 ∧
    (sourcesOf (risingArc 1 1 (1 / 2000))).drop 1 = source :: rest ∧
    isUseless ⟨thousandths, {}, error, noFit⟩ s source.segment = true ∧
    (∃ p, source.segment.Draws p) ∧
      ∀ p, source.segment.Draws p → apart p s.cursor < (3 * error) ^ 2 := by
  obtain ⟨unit, s, source, reached, ahead, useless, _, segment, proper⟩ :=
    risingArc_useless one_pos one_pos (show (0 : ℝ) < 1 / 2000 by norm_num) (by norm_num)
  obtain ⟨_, arcs⟩ := dropped_near (show (3 : ℤ) < 20 by decide) unit reached ahead useless
  obtain ⟨_, _, drawn, near⟩ := arcs _ (congrArg Segment.shape segment) proper
  refine ⟨_, s, source, [], unit, reached, ahead, useless, drawn, ?_⟩
  intro p draws
  exact (near p draws).2 (by norm_num)

theorem place_flat (u : Point ℝ) :
    Ellipse.place ⟨100, 7 / 4000, 0, false, true⟩ ⟨-96, 49 / 100000⟩ 1 u =
      ⟨-96 + 100 * u.x, 49 / 100000 + 7 / 4000 * u.y⟩ := by
  simp [Ellipse.place]

theorem exists_flat_course :
    ∃ course : Ellipse.Course ⟨100, 7 / 4000, 0, false, true⟩ ⟨0, 0⟩ ⟨0, 49 / 50000⟩,
      course.point (1 / 2) = ⟨4, 49 / 100000⟩ := by
  have up : 0 < Real.arcsin (7 / 25) := Real.arcsin_pos.2 (by norm_num)
  have down := Real.arcsin_le_pi_div_two (7 / 25)
  have bySin : Real.sin (Real.arcsin (7 / 25)) = 7 / 25 :=
    Real.sin_arcsin (by norm_num) (by norm_num)
  have byCos : Real.cos (Real.arcsin (7 / 25)) = 24 / 25 := by
    rw [Real.cos_arcsin, show (1 - (7 / 25) ^ 2 : ℝ) = (24 / 25) ^ 2 by norm_num]
    exact Real.sqrt_sq (by norm_num)
  generalize Real.arcsin (7 / 25) = angle at up down bySin byCos
  have stops : -angle + 2 * angle = angle := by ring
  have middle : -angle + 1 / 2 * (2 * angle) = 0 := by ring
  have turned : |2 * angle| = 2 * angle := abs_of_pos (mul_pos two_pos up)
  refine ⟨⟨⟨-96, 49 / 100000⟩, 1, -angle, 2 * angle, .inl rfl, ?_, ?_, mul_pos two_pos up, ?_, ?_⟩,
    ?_⟩
  · rw [place_flat]
    norm_num [Ellipse.spoke, bySin, byCos]
  · rw [place_flat, stops]
    norm_num [Ellipse.spoke, bySin, byCos]
  · change |2 * angle| ≤ Real.pi
    linarith
  · linarith [Real.pi_pos]
  · change Ellipse.place _ _ 1 (Ellipse.spoke (-angle + 1 / 2 * (2 * angle))) = _
    rw [place_flat, middle]
    norm_num [Ellipse.spoke]

-- The tip of a flat ellipse is far away, though its ends are not.
theorem dropped_near_pointed : ∃ error s source rest p, thousandths.error = .ok error ∧
    Reached ⟨thousandths, {}, error, noFit⟩
      (sourcesOf (risingArc 100 (7 / 4000) (49 / 50000))) s 1 ∧
    (sourcesOf (risingArc 100 (7 / 4000) (49 / 50000))).drop 1 = source :: rest ∧
    isUseless ⟨thousandths, {}, error, noFit⟩ s source.segment = true ∧
    source.segment.isDegenerateArc = false ∧ source.segment.Draws p ∧
      (3 * error) ^ 2 ≤ apart p s.cursor := by
  obtain ⟨unit, s, source, reached, ahead, useless, cursor, segment, proper⟩ :=
    risingArc_useless (show (0 : ℝ) < 100 by norm_num) (show (0 : ℝ) < 7 / 4000 by norm_num)
      (show (0 : ℝ) < 49 / 50000 by norm_num) (by norm_num)
  obtain ⟨course, tip⟩ := exists_flat_course
  have half : (0 : ℝ) ≤ 1 / 2 ∧ (1 / 2 : ℝ) ≤ 1 := by norm_num
  have draws : source.segment.Draws ⟨4, 49 / 100000⟩ := by
    rw [segment, ← tip]
    exact .arc (g := ⟨⟨0, 0⟩, .arc _, ⟨0, 49 / 50000⟩⟩) rfl course half.1 half.2
  refine ⟨_, s, source, [], _, unit, reached, ahead, useless, proper, draws, ?_⟩
  rw [cursor]
  norm_num [apart]

end Filter
end PathData
