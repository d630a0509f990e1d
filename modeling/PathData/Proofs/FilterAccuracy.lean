import Mathlib
import PathData.Passes.Rebase
import PathData.Proofs.Exact
import PathData.Proofs.FilterRuns

namespace PathData
namespace Filter

open scoped PathData.Exact

variable {α : Type} [Field α] [LinearOrder α] [IsStrictOrderedRing α] [FloorRing α] [Exact.Roots α]
variable {f : Setup α} {s : State α}

structure Keeps (f : Setup α) : Prop where
  few : f.options.precision < 20
  unit : f.options.error = .ok f.error

theorem Keeps.error_eq (keeps : Keeps f) : f.error = 1 / 10 ^ f.options.precision := by
  have unit := keeps.unit
  rw [Exact.error_eq] at unit
  exact (Except.ok.inj unit).symm

theorem Keeps.positive (keeps : Keeps f) : 0 < f.error := by
  rw [keeps.error_eq]
  exact one_div_pos.2 (Grid.scale_pos _)

omit [IsStrictOrderedRing α] in
theorem near_iff {p q : Point α} {tolerance : α} :
    p.near q tolerance = true ↔ Grid.Close tolerance p q := by
  unfold Point.near Grid.Close
  rw [Bool.and_eq_true, decide_eq_true_eq, decide_eq_true_eq]
  rfl

omit [IsStrictOrderedRing α] in
theorem same_iff {p q : Point α} : (p == q) = true ↔ p = q := by
  change (p.x == q.x && p.y == q.y) = true ↔ p = q
  rw [Bool.and_eq_true, beq_iff_eq, beq_iff_eq, Point.mk.injEq]

theorem round_off (keeps : Keeps f) {x y : α} (rounded : f.options.round f.error x = .ok y) :
    |y - x| < f.error := by
  unfold Options.round at rounded
  rw [Exact.round_eq] at rounded
  cases rounded
  rw [keeps.error_eq]
  exact Grid.rounded_near keeps.few x

omit [IsStrictOrderedRing α] in
theorem shift_neg_origin (b : Body α) : b.shift (-.origin) = b := by
  have number (x : α) : x + -((0 : ℕ) : α) = x := by simp
  have point (p : Point α) : p + -.origin = p := Point.ext (number p.x) (number p.y)
  cases b <;> simp only [Body.shift, point]
  · exact congrArg _ (number _)
  · exact congrArg _ (number _)

-- Coordinates are offsets from the origin, so both forms round an offset from where they count.
omit [IsStrictOrderedRing α] in
theorem place_based {body : Body α} {start : Point α}
    (placed : f.place body start absolute = .ok c) (subpathStart : Point α) :
    ∃ base, c.endPoint start subpathStart = c.body.endPoint base start subpathStart ∧
      (body.shift (-base)).Related (fun x y => f.options.round f.error x = .ok y) c.body := by
  have related := Command.place_related placed
  refine ⟨if c.relative then start else .origin, rfl, ?_⟩
  split at related
  · rename_i relative
    rw [if_pos relative]
    exact related
  · rename_i absolute
    rw [if_neg absolute, shift_neg_origin]
    exact related

theorem place_close (keeps : Keeps f) {body : Body α} {start : Point α}
    (placed : f.place body start absolute = .ok c) (stops : body.stop? = some p)
    (subpathStart : Point α) : Grid.Close f.error (c.endPoint start subpathStart) p := by
  obtain ⟨base, same, related⟩ := place_based placed subpathStart
  obtain ⟨q, stops', onX, onY⟩ := related.stop_eq (Body.stop_shift stops (-base))
  rw [same, Body.endPoint_of_stop stops']
  exact ⟨Grid.offset_off (round_off keeps onX), Grid.offset_off (round_off keeps onY)⟩

theorem place_horizontal (keeps : Keeps f) {start : Point α} {x : α}
    (placed : f.place (.horizontal x) start absolute = .ok c) (subpathStart : Point α) :
    |(c.endPoint start subpathStart).x - x| < f.error ∧
      (c.endPoint start subpathStart).y = start.y := by
  obtain ⟨base, same, related⟩ := place_based placed subpathStart
  rw [same]
  cases body : c.body <;> rw [body] at related <;> cases related
  rename_i onX
  exact ⟨Grid.offset_off (round_off keeps onX), rfl⟩

theorem place_vertical (keeps : Keeps f) {start : Point α} {y : α}
    (placed : f.place (.vertical y) start absolute = .ok c) (subpathStart : Point α) :
    |(c.endPoint start subpathStart).y - y| < f.error ∧
      (c.endPoint start subpathStart).x = start.x := by
  obtain ⟨base, same, related⟩ := place_based placed subpathStart
  rw [same]
  cases body : c.body <;> rw [body] at related <;> cases related
  rename_i onY
  exact ⟨Grid.offset_off (round_off keeps onY), rfl⟩

-- Steps that bring the pen near to `stop` within the subpath.
def Lands (f : Setup α) (s : State α) (stop : Point α) (steps : List (Step α)) : Prop :=
  Grid.Close f.error (s.emitAll steps).cursor stop ∧
    (s.emitAll steps).subpathStart = s.subpathStart

theorem plain_lands (keeps : Keeps f) {body : Body α}
    (placed : f.place body s.cursor false = .ok c) (stops : body.stop? = some stop)
    (notMove : body.kind ≠ .move) (handle : Handle α) :
    Lands f s stop [{ command := c, handle }] :=
  ⟨place_close keeps placed stops s.subpathStart,
    emit_subpathStart (Command.kind_place placed ▸ notMove)⟩

theorem line_lands (keeps : Keeps f) (form : LineForm f s stop own trailing steps) :
    Lands f s stop steps := by
  cases form with
  | line placed => exact plain_lands keeps placed rfl nofun {}
  | horizontal _ level placed =>
    obtain ⟨onX, onY⟩ := place_horizontal keeps placed s.subpathStart
    refine ⟨⟨onX, ?_⟩, emit_subpathStart (Command.kind_place placed ▸ nofun)⟩
    change |(Command.endPoint _ s.cursor s.subpathStart).y - stop.y| < f.error
    rw [onY, abs_sub_comm]
    exact not_le.1 level
  | vertical _ plumb placed =>
    obtain ⟨onY, onX⟩ := place_vertical keeps placed s.subpathStart
    refine ⟨⟨?_, onY⟩, emit_subpathStart (Command.kind_place placed ▸ nofun)⟩
    change |(Command.endPoint _ s.cursor s.subpathStart).x - stop.x| < f.error
    rw [onX, abs_sub_comm]
    exact not_le.1 plumb
  | close _ _ near =>
    exact ⟨(near_iff.1 near).symm, emit_subpathStart (by simp [Command.kind, Body.kind])⟩

theorem fitted_lands (keeps : Keeps f) (form : FittedForm f s fit trueStart stop steps) :
    Lands f s stop steps := by
  cases form with
  | part _ _ placed => exact plain_lands keeps placed rfl nofun {}
  | turn _ leaves returns =>
    refine ⟨place_close keeps returns rfl _, ?_⟩
    exact (emit_subpathStart (Command.kind_place returns ▸ nofun)).trans
      (emit_subpathStart (Command.kind_place leaves ▸ nofun))

theorem arc_lands (keeps : Keeps f) {segment : Segment α}
    (form : ArcForm f s segment e trailing steps) :
    Lands f s segment.stop steps := by
  cases form with
  | flat _ _ form | shallow _ _ _ _ _ form => exact line_lands keeps form
  | arc _ placed => exact plain_lands keeps placed rfl nofun {}

theorem quadratic_lands (keeps : Keeps f) {control : Point α}
    (form : QuadraticForm f s control stop shorthand steps) : Lands f s stop steps := by
  cases form with
  | full placed | smooth _ _ placed => exact plain_lands keeps placed rfl nofun _

theorem curve_lands (keeps : Keeps f) {segment : Segment α}
    (form : CurveForm f s segment kind trailing steps) :
    Lands f s segment.stop steps := by
  cases form with
  | cubic _ form =>
    cases form with
    | full placed | smooth _ _ placed => exact plain_lands keeps placed rfl nofun _
  | raised _ _ _ form | quadratic _ form => exact quadratic_lands keeps form
  | straight _ _ form => exact line_lands keeps form
  | fitted _ _ form => exact fitted_lands keeps form

-- What is dropped ends near the pen, or goes nowhere at all.
omit [IsStrictOrderedRing α] in
theorem useless_close {segment : Segment α} (useless : isUseless f s segment = true) :
    segment.start = segment.stop ∨ Grid.Close f.error s.cursor segment.stop := by
  have inPoints : segment.stop ∈ segment.points.tail := by
    unfold Segment.points
    cases segment.shape <;> simp
  have near (all : segment.points.tail.all (fun p => p.near s.cursor f.error) = true) :
      Grid.Close f.error s.cursor segment.stop :=
    (near_iff.1 (List.all_eq_true.1 all _ inPoints)).symm
  unfold isUseless at useless
  dsimp only at useless
  split at useless
  · split at useless
    · rename_i same
      rw [Bool.and_eq_true] at same
      have onBoth := Bool.and_eq_true_iff.1 same.2
      exact .inl (Point.ext (beq_iff_eq.1 onBoth.1) (beq_iff_eq.1 onBoth.2))
    · rw [Bool.and_eq_true] at useless
      exact .inr (near useless.2)
  · rw [Bool.and_eq_true] at useless
    exact .inr (near useless.2)

structure Accurate (f : Setup α) (s : State α) (pen : Pen α) : Prop where
  cursor : Grid.Close f.error s.cursor pen.position
  subpathStart : Grid.Close f.error s.subpathStart pen.subpathStart
  atStart : AtStart s

theorem visits_accurate (keeps : Keeps f) {pen : Pen α} (accurate : Accurate f s pen)
    {cs : List (Command α)} (sources : sourcesFrom pen cs = source :: rest)
    (visits : Visits f s isFirst source rest next taken) :
    Accurate f next (pen.after (cs.take (taken + 1))) := by
  obtain ⟨after, follows, isAfter, _⟩ := source_ahead (k := 0) sources
  change after = pen.after (cs.take (0 + 1)) at isAfter
  -- Steps from a state with the same subpath start are accurate where they land.
  have landed {t : State α} {steps : List (Step α)} (same : t.subpathStart = s.subpathStart)
      {pen' : Pen α} (keepsStart : pen'.subpathStart = pen.subpathStart) {stop : Point α}
      (position : pen'.position = stop) (writes : Writes f steps) (lands : Lands f t stop steps) :
      Accurate f (t.emitAll steps) pen' := by
    obtain ⟨close, unmoved⟩ := lands
    refine ⟨position ▸ close, ?_, emitAll_atStart (absurd · writes.nonempty)⟩
    rw [unmoved, same, keepsStart]
    exact accurate.subpathStart
  cases visits with
  | move shape placed =>
    rw [← isAfter]
    have moves : (Command.tagAfter s.previous _).isMove = true :=
      decide_eq_true ((Command.kind_tagAfter s.previous _).trans (Command.kind_place placed))
    have close := place_close keeps placed rfl s.subpathStart
    refine ⟨follows.position ▸ close, ?_, emit_atStart s _⟩
    rw [follows.moves shape]
    simpa [State.emit, moves] using close
  | dropClose shape useless =>
    rw [← isAfter]
    have keepsStart := follows.keeps (by simp [shape])
    refine ⟨?_, keepsStart ▸ accurate.subpathStart, accurate.atStart⟩
    have there : s.cursor = s.subpathStart := by
      unfold isUselessClose at useless
      split at useless
      · cases useless
      · rename_i c previous
        simp only [Bool.or_eq_true, Bool.and_eq_true, decide_eq_true_eq] at useless
        rcases useless with ⟨_, isClose⟩ | ⟨_, isMove⟩
        · exact accurate.atStart c previous (.inr isClose)
        · exact accurate.atStart c previous (.inl isMove)
    rw [there, follows.position, follows.closes shape]
    exact accurate.subpathStart
  | close shape needed =>
    rw [← isAfter]
    have keepsStart := follows.keeps (by simp [shape])
    have there : after.position = pen.subpathStart := follows.position.trans (follows.closes shape)
    exact landed rfl keepsStart there close_writes
      ⟨accurate.subpathStart, emit_subpathStart (by simp [Command.kind, Body.kind])⟩
  | drop notMove notClose useless =>
    rw [← isAfter]
    refine ⟨?_, follows.keeps notMove ▸ accurate.subpathStart, accurate.atStart⟩
    rw [follows.position]
    rcases useless_close useless with same | close
    · rw [← same, follows.starts]
      exact accurate.cursor
    · exact close
  | run curve _ covers form =>
    obtain ⟨keepsStart, position⟩ := after_curves sources curve covers.within covers.curves
    exact landed rfl keepsStart position (fitted_writes form) (fitted_lands keeps form)
  | line shape _ form =>
    rw [← isAfter]
    exact landed (collapse_subpathStart f s _) (follows.keeps (by simp [shape])) follows.position
      (line_writes form) (line_lands keeps form)
  | arc shape _ form =>
    rw [← isAfter]
    exact landed rfl (follows.keeps (by simp [shape])) follows.position
      (arc_writes form) (arc_lands keeps form)
  | curve curve _ form =>
    rw [← isAfter]
    exact landed rfl (follows.keeps (Segment.curve_not_move curve)) follows.position
      (curve_writes form) (curve_lands keeps form)

theorem reached_accurate (keeps : Keeps f) {cs : List (Command α)}
    (reached : Reached f (sourcesOf cs) s k) : Accurate f s (Pen.initial.after (cs.take k)) := by
  induction reached with
  | initial =>
    have atStart : AtStart (.initial : State α) := fun c previous => nomatch previous
    exact ⟨Grid.Close.refl keeps.positive _, Grid.Close.refl keeps.positive _, atStart⟩
  | step _ ahead visited ih =>
    rename_i s next k taken source rest _
    have sources : sourcesFrom (Pen.initial.after (cs.take k)) (cs.drop k) = source :: rest :=
      (drop_sources Pen.initial cs k).symm.trans ahead
    have accurate := visits_accurate keeps ih sources (visit_sound visited)
    rw [Nat.add_assoc, Nat.add_comm 1, List.take_add, Pen.after_append]
    exact accurate

theorem filter_accurate {fitter : ArcFitter α} {options : Options α} {style : Style} {error : α}
    {cs : List (Command α)} (few : options.precision < 20) (unit : options.error = .ok error)
    (reached : Reached ⟨options, style, error, fitter⟩ (sourcesOf cs) s k) :
    Grid.Close error s.cursor (Pen.initial.after (cs.take k)).position ∧
      Grid.Close error s.subpathStart (Pen.initial.after (cs.take k)).subpathStart ∧
      ∀ j g, k = j + 1 → (longhand cs)[j]? = some g → Grid.Close error s.cursor g.stop := by
  have accurate := reached_accurate (f := ⟨options, style, error, fitter⟩) ⟨few, unit⟩ reached
  refine ⟨accurate.cursor, accurate.subpathStart, ?_⟩
  intro j g isNext drawn
  rw [← after_position drawn, ← isNext]
  exact accurate.cursor

def driftingPath : List (Command ℚ) :=
  [{ body := .move ⟨1 / 3, 1 / 7⟩ },
   { body := .line ⟨2 / 3, 1 / 7⟩, relative := true },
   { body := .line ⟨1 / 3, 1 / 6⟩, relative := true },
   { body := .close }]

def coarse : Options ℚ := { flags := {}, makeArcs := none, precision := 1 }

theorem filter_accurate_drifting :
    ∃ error s, coarse.error = .ok error ∧
      Reached ⟨coarse, {}, error, noFit⟩ (sourcesOf (Placed.commands (rebase false driftingPath)))
        s 4 ∧
      Grid.Close error s.cursor
        (Pen.initial.after ((Placed.commands (rebase false driftingPath)).take 4)).position := by
  have written : (match filterCommands noFit coarse {} (rebase false driftingPath) with
      | .ok placed => placed.length == 3
      | .error _ => false) = true := by
    decide +kernel
  split at written
  · rename_i placed filtered
    obtain ⟨error, s, unit, reached, _⟩ := reached_filterCommands filtered
    exact ⟨error, s, unit, reached, (filter_accurate (by decide) unit reached).1⟩
  · cases written

end Filter
end PathData
