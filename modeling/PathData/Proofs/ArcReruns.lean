import Mathlib
import PathData.Geometry.Fitting
import PathData.Proofs.ArcHeights
import PathData.Proofs.FilterOutput
import PathData.Proofs.LaterPasses

namespace PathData

open Fault (bind_ok)

namespace Filter

section Runs

variable {α : Type} [Scalar α]

def drawnAfter (first c : Command α) : Segment α :=
  ((Pen.initial.draw first).2.draw c).1

structure ArcRun (f : Setup α) (first a : Command α) (q p : Placed α) (s t : State α)
    (e : EllipticArc α) (step : Step α) : Prop where
  before : Reached f (sourcesOf [first, a]) s 1
  after : Reached f (sourcesOf [first, a]) t 2
  output : t.output = [p, q]
  move : q.command.kind = .move
  shape : (drawnAfter first a).shape = .arc e
  start : p.start = s.cursor
  stop : p.stop = step.command.endPoint s.cursor s.subpathStart
  last : t.cursor = p.stop
  body : p.command.body = step.command.body
  form : ArcForm f s (drawnAfter first a) e true [step]

theorem visitAll_cons {sources : List (Source α)} {last : State α} :
    visitAll f s isFirst 0 (source :: sources) = .ok last ↔
      ∃ next taken, visit f s isFirst source sources = .ok (next, taken) ∧
        visitAll f next false taken sources = .ok last := by
  rw [visitAll, bind_ok, Prod.exists]

theorem visits_arc {source : Source α} (shape : source.segment.shape = .arc e)
    (visits : Visits f s isFirst source rest next taken) :
    next = s ∨ ∃ step, ArcForm f s source.segment e (isTrailing rest) [step] ∧
      next = s.emit step := by
  obtain ⟨steps, rfl, forms⟩ := visits_steps visits
  rw [writtenFrom_eq (by simp [shape])]
  rcases forms e shape with rfl | form
  · exact .inl rfl
  · obtain ⟨step, rfl⟩ := List.length_eq_one_iff.1 (arc_single form)
    exact .inr ⟨step, form, rfl⟩

theorem arc_run {fitter : ArcFitter α} {options : Options α} {style : Style}
    {ps placed : List (Placed α)} {first a : Command α} {shape : ArcShape α} {stop : Point α}
    (commands : Placed.commands ps = [first, a]) (move : first.kind = .move)
    (arc : a.body = .arc shape stop)
    (filtered : filterCommands fitter options style ps = .ok placed) (member : p ∈ placed)
    (isArc : p.command.kind = .arc) :
    ∃ error q s t e step, options.error = .ok error ∧ placed = [q, p] ∧
      ArcRun ⟨options, style, error, fitter⟩ first a q p s t e step := by
  obtain ⟨error, unit, filtered⟩ := bind_ok.1 filtered
  obtain ⟨t, ran, made⟩ := bind_ok.1 filtered
  cases made
  rw [commands] at ran
  change visitAll _ _ true 0
    [⟨first, (Pen.initial.draw first).1⟩, ⟨a, drawnAfter first a⟩] = _ at ran
  have firstShape : (Pen.initial.draw first).1.shape = .move := by
    rw [← Segment.isMove_iff, Pen.draw_isMove]
    exact decide_eq_true move
  have secondShape : (drawnAfter first a).shape = _ := drawn_arc arc
  obtain ⟨s, _, visited, ran⟩ := visitAll_cons.1 ran
  obtain ⟨opening, placed, rfl, rfl⟩ := visits_move firstShape (visit_sound visited)
  have before : Reached ⟨options, style, error, fitter⟩ (sourcesOf [first, a]) _ 1 :=
    .step .initial rfl visited
  have isMove : (Command.tagAfter none opening).kind = .move :=
    (Command.kind_tagAfter none opening).trans (Command.kind_place placed)
  obtain ⟨_, taken, visited, ran⟩ := visitAll_cons.1 ran
  cases ran
  obtain rfl : taken = 0 := Nat.le_zero.1 (visit_within visited)
  rcases visits_arc secondShape (visit_sound visited) with rfl | ⟨step, form, rfl⟩
  · rw [List.mem_singleton.1 member] at isArc
    cases isMove.symm.trans isArc
  · rcases List.mem_pair.1 member with rfl | rfl
    · cases isMove.symm.trans isArc
    · exact ⟨error, _, _, _, _, step, unit, rfl, before, .step before rfl visited, rfl, isMove,
        secondShape, rfl, rfl, rfl, Command.body_tagAfter _ _, form⟩

def radii (ps : List (Placed α)) : List α :=
  ps.filterMap fun p =>
    match p.command.body with
    | .arc a _ => some a.rx
    | _ => none

omit [Scalar α] in
theorem arc_of_radii {ps : List (Placed α)} {x : α} (single : radii ps = [x]) :
    ∃ p ∈ ps, ∃ a stop, p.command.body = .arc a stop := by
  have found : x ∈ radii ps := single ▸ List.mem_cons_self
  obtain ⟨p, member, found⟩ := List.mem_filterMap.1 found
  cases body : p.command.body with
  | arc a stop => exact ⟨p, member, a, stop, body⟩
  | _ =>
    rw [body] at found
    cases found

def writesTwice [DecidableEq α] (fitter : ArcFitter α) (options : Options α)
    (path : List (Command α)) (once twice : α) : Bool :=
  (filterCommands fitter options {} (rebase false path)).toOption.any fun placed =>
    decide (radii placed = [once]) &&
      (filterCommands fitter options {} placed).toOption.any fun again =>
        decide (radii again = [twice])

theorem writes_twice [DecidableEq α] {fitter : ArcFitter α} {options : Options α}
    {path : List (Command α)} {once twice : α}
    (evaluated : writesTwice fitter options path once twice = true) :
    ∃ placed again, filterCommands fitter options {} (rebase false path) = .ok placed ∧
      filterCommands fitter options {} placed = .ok again ∧
      radii placed = [once] ∧ radii again = [twice] := by
  obtain ⟨placed, filtered, evaluated⟩ := Fault.ok_of_any evaluated
  obtain ⟨first, evaluated⟩ := Bool.and_eq_true_iff.1 evaluated
  obtain ⟨again, refiltered, second⟩ := Fault.ok_of_any evaluated
  exact ⟨placed, again, filtered, refiltered, of_decide_eq_true first, of_decide_eq_true second⟩

end Runs

open scoped PathData.Exact

variable {α : Type} [Field α] [LinearOrder α] [FloorRing α] [Exact.Roots α] {f : Setup α}

-- A search that only the second run makes, as the circle was too short for its chord before it was
-- rounded.
structure Stretched (f : Setup α) (chord : α) (large : Bool) (radius written again : α) : Prop where
  short : 2 * radius < chord
  reaches : chord ≤ 2 * written
  kept : KeepsHeight f chord large written again
  stable : Radius.Stable (heights f chord large) again

theorem flag_large (b : Bool) : (!((flag b : α) == 0)) = b := by
  cases b <;> simp [flag]

variable [IsStrictOrderedRing α]

theorem point_eq (keeps : Keeps f) (decimals : 0 < f.options.precision) {p q : Point α}
    (left : Grid.PointOn f.options.precision p) (right : Grid.PointOn f.options.precision q)
    (close : Grid.Close f.error p q) : p = q := by
  unfold Grid.PointOn Grid.On Grid.places at left right
  rw [if_pos ⟨decimals, keeps.few⟩] at left right
  rw [keeps.error_eq] at close
  exact Point.ext (left.1.eq_of_close right.1 close.1) (left.2.eq_of_close right.2 close.2)

theorem rerun_ends (keeps : Keeps f) (decimals : 0 < f.options.precision)
    {q p q' p' : Placed α} {s t : State α} {e : EllipticArc α} {step : Step α}
    (laid : Laid .initial [q, p]) (on : Grid.PlacedOn f.options.precision p)
    (run : ArcRun f q.command p.command q' p' s t e step) :
    p'.start = p.start ∧ p'.stop = p.stop := by
  obtain ⟨_, _, start, stop, _⟩ := laid
  have before := (reached_accurate keeps run.before).cursor
  have after := (reached_accurate keeps run.after).cursor
  change Grid.Close f.error s.cursor (Pen.initial.draw q.command).2.position at before
  change Grid.Close f.error t.cursor
    ((Pen.initial.draw q.command).2.draw p.command).1.stop at after
  rw [← start, ← run.start] at before
  rw [← stop, run.last] at after
  have on' : Grid.PlacedOn f.options.precision p' :=
    (reached_on run.after).output p' (run.output ▸ List.mem_cons_self)
  exact ⟨point_eq keeps decimals on'.start on.start before,
    point_eq keeps decimals on'.stop on.stop after⟩

theorem resettles (keeps : Keeps f) (decimals : 0 < f.options.precision)
    {chord radius r written r' again : α} {large : Bool} (settles : Settles f chord large radius r)
    (rounds : f.options.round f.error r = .ok written)
    (resettles : Settles f chord large written r')
    (rounds' : f.options.round f.error r' = .ok again) :
    again = written ∨ Stretched f chord large radius written again := by
  have on := round_on rounds
  cases resettles with
  | unsearched | short => exact .inl (Except.ok.inj (rounds'.symm.trans (round_of_on on)))
  | rounded _ _ none => exact absurd ((heights_on keeps decimals).2 on) (Radius.finds_none none).1
  | found _ measured finds =>
    have kept := keepsHeight_found keeps decimals measured finds rounds'
    have on' := (found_on keeps decimals measured finds).1
    obtain rfl : r' = again := Except.ok.inj ((round_of_on on').symm.trans rounds')
    rcases settles_stable keeps decimals settles with short | ⟨on, stable⟩
    · exact .inr ⟨short, sagitta_reach measured, kept, finds.stable⟩
    · obtain rfl : r = written := Except.ok.inj ((round_of_on on).symm.trans rounds)
      exact .inl (Option.some.inj (finds.unique stable))

theorem run_radius {first a : Command α} {q p : Placed α} {s t : State α} {e : EllipticArc α}
    {step : Step α} {shape written : ArcShape α} {stop writtenStop : Point α}
    (run : ArcRun f first a q p s t e step) (arc : a.body = .arc shape stop)
    (circle : shape.rx = shape.ry) (nonneg : 0 ≤ shape.rx)
    (isArc : p.command.body = .arc written writtenStop) :
    written.ry = written.rx ∧ written.large = flag (!(shape.large == 0)) ∧
      ∃ r, f.options.round f.error r = .ok written.rx ∧
        ((shape.rx = 0 ∨ f.flags.smartArcRounding = false) ∧ r = shape.rx ∨
          f.flags.smartArcRounding = true ∧
            Settles f (p.stop - p.start).length (!(shape.large == 0)) shape.rx r) := by
  have kind : step.command.kind = .arc := congrArg Body.kind (run.body.symm.trans isArc)
  have drawn : (drawnAfter first a).shape =
      .arc ⟨shape.rx, shape.rx, shape.rotation, !(shape.large == 0), !(shape.sweep == 0)⟩ := by
    have sized : Scalar.abs shape.rx = shape.rx := abs_of_nonneg nonneg
    rw [drawnAfter, drawn_arc arc, ← circle, sized, Exact.literal_zero]
  obtain rfl := Shape.arc.inj (run.shape.symm.trans drawn)
  obtain ⟨a, _, r, body, same, large, rounds, chosen⟩ := circle_written rfl run.form kind
  rw [← run.body, isArc] at body
  cases body
  rw [← run.stop, ← run.start] at chosen
  exact ⟨same, large, r, rounds, chosen⟩

theorem rerun_radius {fitter : ArcFitter α} {options : Options α} {style : Style}
    {ps placed again : List (Placed α)} {p p' : Placed α} {first a : Command α}
    {shape written rewritten : ArcShape α} {stop writtenStop rewrittenStop : Point α}
    (decimals : 0 < options.precision) (few : options.precision < 20)
    (commands : Placed.commands ps = [first, a]) (move : first.kind = .move)
    (arc : a.body = .arc shape stop) (circle : shape.rx = shape.ry) (positive : 0 < shape.rx)
    (filtered : filterCommands fitter options style ps = .ok placed) (member : p ∈ placed)
    (isArc : p.command.body = .arc written writtenStop)
    (refiltered : filterCommands fitter options style placed = .ok again) (member' : p' ∈ again)
    (isArc' : p'.command.body = .arc rewritten rewrittenStop) :
    rewritten.rx = written.rx ∧ rewritten.ry = written.ry ∨
      rewritten.ry = rewritten.rx ∧ ∃ error, options.error = .ok error ∧
        Stretched ⟨options, style, error, fitter⟩ (p.stop - p.start).length (!(shape.large == 0))
          shape.rx written.rx rewritten.rx := by
  obtain ⟨laid, on⟩ := Pipeline.filtered_laid filtered
  obtain ⟨error, q, s, t, e, step, unit, rfl, run⟩ :=
    arc_run commands move arc filtered member (congrArg Body.kind isArc)
  obtain ⟨error', q', s', t', e', step', unit', rfl, rerun⟩ :=
    arc_run rfl run.move isArc refiltered member' (congrArg Body.kind isArc')
  obtain rfl : error = error' := Except.ok.inj (unit.symm.trans unit')
  have keeps : Keeps (⟨options, style, error, fitter⟩ : Setup α) := ⟨few, unit⟩
  obtain ⟨same, large, r, rounds, chosen⟩ := run_radius run arc circle positive.le isArc
  have nonneg : 0 ≤ written.rx := by
    refine round_nonneg keeps decimals rounds ?_
    rcases chosen with ⟨_, rfl⟩ | ⟨_, settles⟩
    · exact positive.le
    · exact settles_nonneg keeps settles positive.le
  -- The second run sees the radius that the first one wrote, over the same chord.
  obtain ⟨same', _, r', rounds', chosen'⟩ := run_radius rerun isArc same.symm nonneg isArc'
  obtain ⟨starts, stops⟩ := rerun_ends keeps decimals laid (on p member) rerun
  rw [starts, stops, large, flag_large] at chosen'
  have either : rewritten.rx = written.rx ∨
      Stretched ⟨options, style, error, fitter⟩ (p.stop - p.start).length (!(shape.large == 0))
        shape.rx written.rx rewritten.rx := by
    rcases chosen' with ⟨_, rfl⟩ | ⟨smart, settles'⟩
    · exact .inl (Except.ok.inj (rounds'.symm.trans (round_of_on (round_on rounds))))
    · rcases chosen with ⟨zero | off, rfl⟩ | ⟨_, settles⟩
      · exact absurd zero positive.ne'
      · exact absurd (off.symm.trans smart) nofun
      · exact resettles keeps decimals settles rounds settles' rounds'
  rw [same', same]
  exact either.imp (fun equal => ⟨equal, equal⟩) fun stretched => ⟨rfl, error, unit, stretched⟩

theorem rerun_radius_shallow :
    ∃ placed again p p' written rewritten stop stop',
      filterCommands noFit oneDecimal {} (rebase false shallowPath) = .ok placed ∧ p ∈ placed ∧
      p.command.body = .arc written stop ∧ filterCommands noFit oneDecimal {} placed = .ok again ∧
      p' ∈ again ∧ p'.command.body = .arc rewritten stop' ∧
      (rewritten.rx = written.rx ∧ rewritten.ry = written.ry ∨
        rewritten.ry = rewritten.rx ∧ ∃ error, oneDecimal.error = .ok error ∧
          Stretched ⟨oneDecimal, {}, error, noFit⟩ (p.stop - p.start).length false (51 / 40)
            written.rx rewritten.rx) := by
  obtain ⟨placed, again, filtered, refiltered, first, second⟩ :=
    writes_twice (show writesTwice noFit oneDecimal shallowPath 1 1 = true by decide +kernel)
  obtain ⟨p, member, written, stop, isArc⟩ := arc_of_radii first
  obtain ⟨p', member', rewritten, stop', isArc'⟩ := arc_of_radii second
  have settled := rerun_radius (by decide) (by decide) rfl rfl rfl rfl (by norm_num) filtered member
    isArc refiltered member' isArc'
  exact ⟨placed, again, p, p', written, rewritten, stop, stop', filtered, member, isArc,
    refiltered, member', isArc', settled⟩

-- The radius of a circle that is too short for its chord is rounded up to half of the chord, and
-- the second run finds a whole number for it.
theorem rerun_radius_short :
    ∃ placed again,
      filterCommands Fitting.fitSegments .default {}
        (rebase false (soleArc 0.00096 0.002)) = .ok placed ∧
      filterCommands Fitting.fitSegments .default {} placed = .ok again ∧
      radii placed = [0.001] ∧ radii again = [1] := by
  have evaluated :
      writesTwice Fitting.fitSegments .default (soleArc 0.00096 0.002) 0.001 1 = true := by
    decide +kernel
  exact writes_twice evaluated

end Filter
end PathData
