import Mathlib
import PathData.Number.Double
import PathData.Proofs.ArcRadii
import PathData.Proofs.FilterOrigins
import PathData.Proofs.FilterRendering
import PathData.Proofs.Plane

namespace PathData

open Fault (bind_ok)

namespace Filter

section Steps

open scoped PathData.Scalar

variable {α : Type} [Scalar α] {f : Setup α} {s : State α} {pen : Pen α}

theorem visits_steps {source : Source α} (visits : Visits f s isFirst source rest next taken) :
    ∃ steps, next = (writtenFrom f s source).emitAll steps ∧
      ∀ e, source.segment.shape = .arc e →
        steps = [] ∨ ArcForm f s source.segment e (isTrailing rest) steps := by
  cases visits with
  | move shape =>
    rw [writtenFrom_eq (by simp [shape])]
    exact ⟨[_], rfl, by simp [shape]⟩
  | dropClose shape =>
    rw [writtenFrom_eq (by simp [shape])]
    exact ⟨[], rfl, by simp⟩
  | close shape =>
    rw [writtenFrom_eq (by simp [shape])]
    exact ⟨[_], rfl, by simp [shape]⟩
  | drop _ _ useless =>
    rw [writtenFrom_useless useless]
    exact ⟨[], rfl, by simp⟩
  | line shape needed =>
    rw [writtenFrom_needed shape needed]
    exact ⟨_, rfl, by simp [shape]⟩
  | @arc e _ shape _ form =>
    rw [writtenFrom_eq (by simp [shape])]
    refine ⟨_, rfl, ?_⟩
    intro e' same
    cases shape.symm.trans same
    exact .inr form
  | run curve | curve curve =>
    have plain : source.segment.shape ≠ .line ∧ ∀ e, source.segment.shape ≠ .arc e := by
      constructor
      · intro shape
        simp [Segment.isCurve, Segment.kind, shape] at curve
      · intro e shape
        simp [Segment.isCurve, Segment.kind, shape] at curve
    rw [writtenFrom_eq plain.1]
    exact ⟨_, rfl, fun e shape => absurd shape (plain.2 e)⟩

theorem writtenFrom_tracks {entries : List (Placed α × Segment α)} (tracks : Tracks s entries pen)
    (source : Source α) :
    writtenFrom f s source = s ∨ source.segment.shape = .line ∧ ∃ p entry rest pen',
      s.output = p :: (writtenFrom f s source).output ∧ entries = entry :: rest ∧
        Tracks (writtenFrom f s source) rest pen' := by
  rcases writtenFrom_cases f s source with kept | ⟨shape, _, _, p, popped, line⟩
  · exact .inl kept
  · obtain ⟨entry, rest, pen', same, before⟩ := pop_tracks tracks popped line
    exact .inr ⟨shape, p, entry, rest, pen', pop_output popped, same, before⟩

theorem emitAll_entries {entries : List (Placed α × Segment α)} (tracks : Tracks s entries pen)
    (steps : List (Step α)) :
    ∃ written pen', Tracks (s.emitAll steps) (written ++ entries) pen' := by
  induction steps generalizing s entries pen with
  | nil => exact ⟨[], pen, tracks⟩
  | cons step rest ih =>
    obtain ⟨p, _, emitted⟩ := emit_tracks tracks step
    obtain ⟨written, pen', tracked⟩ := ih emitted
    refine ⟨written ++ [(p, (pen.draw step.command).1)], pen', ?_⟩
    rw [List.append_assoc]
    exact tracked

theorem emit_entry {entries : List (Placed α × Segment α)} (tracks : Tracks s entries pen)
    (step : Step α) :
    ∃ p, p.start = s.cursor ∧ p.stop = step.command.endPoint s.cursor s.subpathStart ∧
      p.command.body = step.command.body ∧
      Tracks (s.emit step) ((p, (pen.draw step.command).1) :: entries)
        (pen.draw step.command).2 := by
  obtain ⟨p, _, emitted⟩ := emit_tracks tracks step
  have first := (List.cons.inj emitted.output).1
  refine ⟨p, (congrArg Placed.start first).symm, (congrArg Placed.stop first).symm, ?_, emitted⟩
  have body := congrArg (fun p => p.command.body) first
  exact body.symm.trans (Command.body_tagAfter s.previous step.command)

theorem drawn_arc {c : Command α} {a : ArcShape α} {stop : Point α} (body : c.body = .arc a stop) :
    (pen.draw c).1.shape = .arc ⟨Scalar.abs a.rx, Scalar.abs a.ry, a.rotation, !(a.large == 0),
      !(a.sweep == 0)⟩ := by
  unfold Pen.draw Command.toAbsolute
  dsimp only
  split
  · rw [body]
    rfl
  · rw [body]
    rfl

end Steps

open scoped PathData.Exact

variable {α : Type} [Field α] [LinearOrder α] [IsStrictOrderedRing α] [FloorRing α] [Exact.Roots α]
variable {f : Setup α} {s : State α} {pen : Pen α}

-- An entry of the ledger that was written for an arc, with the state that it was written from.
inductive WrittenFor (f : Setup α) (source : Source α) (e : EllipticArc α) :
    Placed α × Segment α → Prop where
  | intro {s : State α} {pen : Pen α} {p : Placed α} {step : Step α} {trailing : Bool}
      (accurate : Grid.Close f.error s.cursor source.segment.start)
      (position : pen.position = s.cursor) (subpath : pen.subpathStart = s.subpathStart)
      (start : p.start = s.cursor) (stop : p.stop = step.command.endPoint s.cursor s.subpathStart)
      (body : p.command.body = step.command.body)
      (form : ArcForm f s source.segment e trailing [step]) :
      WrittenFor f source e (p, (pen.draw step.command).1)

def ArcWritten (f : Setup α) (entry : Placed α × Segment α) (own : List (Source α)) : Prop :=
  ∀ source e, own = [source] → source.segment.shape = .arc e → WrittenFor f source e entry

omit [IsStrictOrderedRing α] in
theorem arc_entries {entries : List (Placed α × Segment α)} {source : Source α} {trailing : Bool}
    (tracks : Tracks s entries pen) (accurate : Grid.Close f.error s.cursor source.segment.start)
    (form : steps = [] ∨ ArcForm f s source.segment e trailing steps) :
    ∃ written pen', Tracks (s.emitAll steps) (written ++ entries) pen' ∧
      ∀ entry ∈ written, WrittenFor f source e entry := by
  rcases form with rfl | form
  · exact ⟨[], pen, tracks, nofun⟩
  · obtain ⟨step, rfl⟩ := List.length_eq_one_iff.1 (arc_single form)
    obtain ⟨p, start, stop, body, emitted⟩ := emit_entry tracks step
    refine ⟨[_], _, emitted, ?_⟩
    intro entry member
    rw [List.mem_singleton.1 member]
    exact .intro accurate tracks.position tracks.subpathStart start stop body form

omit [IsStrictOrderedRing α] in
theorem steps_entries {entries : List (Placed α × Segment α)} {source : Source α}
    {trailing : Bool} {steps : List (Step α)} (tracks : Tracks s entries pen)
    (accurate : Grid.Close f.error s.cursor source.segment.start)
    (arcs : ∀ e, source.segment.shape = .arc e →
      steps = [] ∨ ArcForm f s source.segment e trailing steps) :
    ∃ written pen', Tracks (s.emitAll steps) (written ++ entries) pen' ∧
      ∀ entry ∈ written, ∀ e, source.segment.shape = .arc e → WrittenFor f source e entry := by
  by_cases isArc : ∃ e, source.segment.shape = .arc e
  · obtain ⟨e, shape⟩ := isArc
    obtain ⟨written, pen', tracked, come⟩ := arc_entries tracks accurate (arcs e shape)
    refine ⟨written, pen', tracked, ?_⟩
    intro entry member e' same
    cases shape.symm.trans same
    exact come entry member
  · obtain ⟨written, pen', tracked⟩ := emitAll_entries tracks steps
    exact ⟨written, pen', tracked, fun _ _ e shape => absurd ⟨e, shape⟩ isArc⟩

omit [IsStrictOrderedRing α] in
theorem visits_written {entries : List (Placed α × Segment α)} {origins : List (List (Source α))}
    {source : Source α} (tracks : Tracks s entries pen)
    (accurate : Grid.Close f.error s.cursor source.segment.start)
    (come : List.Forall₂ (ArcWritten f) entries origins)
    (visits : Visits f s isFirst source rest next taken) :
    ∃ entries' pen', Tracks next entries' pen' ∧ List.Forall₂ (ArcWritten f) entries'
      (originsAfter f s source rest next taken origins) := by
  obtain ⟨steps, rfl, arcs⟩ := visits_steps visits
  -- What is written stands for a single arc only where the source is one.
  have itself {own : List (Source α)} (member : source ∈ own) {other : Source α}
      (single : own = [other]) : other = source := by
    rw [single] at member
    exact (List.mem_singleton.1 member).symm
  rcases writtenFrom_tracks tracks source with
    kept | ⟨line, p, entry, before, pen', output, rfl, back⟩
  · have outputs {written : List (Placed α × Segment α)} {pen' : Pen α}
        (tracked : Tracks ((writtenFrom f s source).emitAll steps) (written ++ entries) pen') :
        ((writtenFrom f s source).emitAll steps).output = written.map Prod.fst ++ s.output := by
      rw [tracked.output, tracks.output, List.map_append]
    obtain ⟨written, pen', tracked, here⟩ := steps_entries tracks accurate arcs
    rw [← kept] at tracked
    refine ⟨_, pen', tracked, ?_⟩
    rw [originsAfter_kept kept (outputs tracked), List.length_map]
    refine List.rel_append (forall₂_replicate ?_) come
    intro entry member other e single shape
    cases itself List.mem_cons_self single
    exact here entry member e shape
  · obtain ⟨written, pen'', tracked⟩ := emitAll_entries back steps
    have outputs : ((writtenFrom f s source).emitAll steps).output =
        written.map Prod.fst ++ (writtenFrom f s source).output := by
      rw [tracked.output, back.output, List.map_append]
    refine ⟨_, pen'', tracked, ?_⟩
    cases come with
    | @cons _ earlier _ others here later =>
      rw [originsAfter_folded output outputs, List.length_map]
      refine List.rel_append (forall₂_replicate ?_) later
      intro entry _ other e single shape
      have member : source ∈ earlier ++ source :: rest.take taken :=
        List.mem_append_right _ List.mem_cons_self
      cases itself member single
      cases line.symm.trans shape

theorem sourced_written (keeps : Keeps f) {cs : List (Command α)}
    {origins : List (List (Source α))} (sourced : Sourced f (sourcesOf cs) s k origins) :
    Reached f (sourcesOf cs) s k ∧ ∃ entries pen, Tracks s entries pen ∧
      List.Forall₂ (ArcWritten f) entries origins := by
  induction sourced with
  | initial => exact ⟨.initial, [], .initial, ⟨rfl, .start, rfl, rfl⟩, .nil⟩
  | step _ ahead visited ih =>
    obtain ⟨reached, entries, pen, tracks, come⟩ := ih
    obtain ⟨_, follows, _, _⟩ := source_ahead ahead
    have accurate := (reached_accurate keeps reached).cursor
    rw [← follows.starts] at accurate
    have visits := visit_sound visited
    exact ⟨.step reached ahead visited, visits_written tracks accurate come visits⟩

variable [Exact.Measures α]

theorem smartRadius_zero (keeps : Keeps f) (chosen : smartRadius f s radius stop large = .ok r)
    (rounds : f.options.round f.error r = .ok 0) :
    f.options.round f.error radius = .ok 0 ∨ Grid.Close f.error s.cursor stop := by
  obtain ⟨_, ⟨line, placed, rfl⟩, settles⟩ := smartRadius_settles chosen
  have settled (on : Grid.On f.options.precision r) : r = 0 :=
    Except.ok.inj ((round_of_on on).symm.trans rounds)
  rcases settles_cases keeps settles with same | rounded | ⟨on, reaches⟩
  · exact .inl (same ▸ rounds)
  · exact .inl (settled (round_on rounded) ▸ rounded)
  · rw [settled on, mul_zero] at reaches
    have there : line.endPoint s.cursor s.subpathStart = s.cursor := by
      by_contra apart
      have offset : (line.endPoint s.cursor s.subpathStart).x - s.cursor.x ≠ 0 ∨
          (line.endPoint s.cursor s.subpathStart).y - s.cursor.y ≠ 0 := by
        by_contra none
        rw [not_or, not_not, not_not] at none
        exact apart (Point.ext (sub_eq_zero.1 none.1) (sub_eq_zero.1 none.2))
      exact absurd reaches (not_le.2 (Exact.Measures.hypot_pos _ _ offset))
    have close := place_close keeps placed rfl s.subpathStart
    rw [there] at close
    exact .inr close

-- What an arc of the output has lost if it draws nothing or a straight line.
inductive Loses (f : Setup α) (e : EllipticArc α) (start stop : Point α) : Prop where
  | rx (rounds : f.options.round f.error e.rx = .ok 0)
  | ry (rounds : f.options.round f.error e.ry = .ok 0)
  | chord (close : Grid.Close f.error start stop)

theorem arcRadii_zero (keeps : Keeps f) {e : EllipticArc α}
    (chosen : arcRadii f s stop e = .ok radii)
    (rounds : f.options.round f.error radii.1 = .ok 0 ∨
      f.options.round f.error radii.2 = .ok 0) : Loses f e s.cursor stop := by
  unfold arcRadii at chosen
  split at chosen
  · rename_i circle
    obtain ⟨radius, smart, made⟩ := bind_ok.1 chosen
    cases made
    rcases smartRadius_zero keeps smart (rounds.elim id id) with zero | close
    · exact .rx zero
    · exact .chord close
  · cases chosen
    exact rounds.elim .rx .ry

theorem arc_loses (keeps : Keeps f) {source : Segment α} {trailing : Bool} {c : Command α}
    {handle : Handle α} (position : pen.position = s.cursor)
    (subpath : pen.subpathStart = s.subpathStart)
    (form : ArcForm f s source e trailing [{ command := c, handle }]) (kind : c.kind = .arc)
    (lost : (pen.draw c).1.isDegenerateArc = true) : Loses f e s.cursor source.stop := by
  obtain ⟨radii, chosen, placed⟩ := arcForm_placed form kind
  obtain ⟨a, q, body, byX, byY, _⟩ := placed_arc placed
  unfold Segment.isDegenerateArc at lost
  rw [drawn_arc body] at lost
  simp only [Bool.or_eq_true, beq_iff_eq, Exact.literal_zero] at lost
  rcases lost with (zero | zero) | same
  · rw [abs_eq_zero.1 zero] at byX
    exact arcRadii_zero keeps chosen (.inl byX)
  · rw [abs_eq_zero.1 zero] at byY
    exact arcRadii_zero keeps chosen (.inr byY)
  · have there := same_iff.1 same
    change pen.position = c.endPoint pen.position pen.subpathStart at there
    rw [position, subpath] at there
    have close := place_close keeps placed rfl s.subpathStart
    rw [← there] at close
    exact .chord close

structure Stays (f : Setup α) (source : Source α) (e : EllipticArc α)
    (entry : Placed α × Segment α) : Prop where
  start : Grid.Close f.error entry.1.start source.segment.start
  loses : entry.2.isDegenerateArc = true → Loses f e entry.1.start source.segment.stop

theorem WrittenFor.stays (keeps : Keeps f) {source : Source α} {entry : Placed α × Segment α}
    (written : WrittenFor f source e entry) (kind : entry.1.command.kind = .arc) :
    Stays f source e entry := by
  obtain ⟨accurate, position, subpath, start, _, body, form⟩ := written
  refine ⟨start ▸ accurate, ?_⟩
  intro lost
  rw [start]
  exact arc_loses keeps position subpath form ((congrArg Body.kind body).symm.trans kind) lost

omit [Exact.Measures α] in
theorem Stays.wide (keeps : Keeps f) {source : Source α} {entry : Placed α × Segment α}
    (stays : Stays f source e entry) (byX : f.error ≤ e.rx) (byY : f.error ≤ e.ry)
    (apart : ¬ Grid.Close (2 * f.error) source.segment.start source.segment.stop) :
    entry.2.isDegenerateArc = false := by
  have vanishes {r : α} (rounds : f.options.round f.error r = .ok 0) : r < f.error := by
    have off := round_off keeps rounds
    rw [zero_sub, abs_neg] at off
    exact lt_of_le_of_lt (le_abs_self r) off
  apply Bool.eq_false_iff.2
  intro lost
  cases stays.loses lost with
  | rx rounds => exact absurd (vanishes rounds) byX.not_gt
  | ry rounds => exact absurd (vanishes rounds) byY.not_gt
  | chord close =>
    apply apart
    have triangle {a b c : α} (first : |a - b| < f.error) (second : |a - c| < f.error) :
        |b - c| < 2 * f.error := by
      rw [abs_sub_comm] at first
      have := abs_sub_le b a c
      linarith
    exact ⟨triangle stays.start.1 close.1, triangle stays.start.2 close.2⟩

structure ArcKept (f : Setup α) (source : Source α) (e : EllipticArc α)
    (entry : Placed α × Segment α) : Prop where
  loses : entry.2.isDegenerateArc = true → Loses f e entry.1.start source.segment.stop
  wide : f.error ≤ e.rx → f.error ≤ e.ry →
    ¬ Grid.Close (2 * f.error) source.segment.start source.segment.stop →
    entry.2.isDegenerateArc = false

def ArcsKept (f : Setup α) (entry : Placed α × Segment α) (own : List (Source α)) : Prop :=
  ∀ source e, own = [source] → source.segment.shape = .arc e → entry.1.command.kind = .arc →
    ArcKept f source e entry

theorem drawn_arcs_stay {fitter : ArcFitter α} {options : Options α} {style : Style}
    {ps placed : List (Placed α)} (few : options.precision < 20)
    (filtered : filterCommands fitter options style ps = .ok placed) :
    ∃ error s origins, options.error = .ok error ∧ placed = s.output.reverse ∧
      Sourced ⟨options, style, error, fitter⟩ (sourcesOf (Placed.commands ps)) s
        (sourcesOf (Placed.commands ps)).length origins ∧
      List.Forall₂ (ArcsKept ⟨options, style, error, fitter⟩) s.drawn origins := by
  obtain ⟨error, s, unit, reached, rfl⟩ := reached_filterCommands filtered
  have keeps : Keeps (⟨options, style, error, fitter⟩ : Setup α) := ⟨few, unit⟩
  obtain ⟨origins, sourced⟩ := reached_sourced reached
  obtain ⟨_, entries, pen, tracks, written⟩ := sourced_written keeps sourced
  refine ⟨error, s, origins, unit, rfl, sourced, ?_⟩
  rw [tracks_drawn tracks]
  refine written.imp ?_
  intro entry own come source e single shape isArc
  have here := (come source e single shape).stays keeps isArc
  exact ⟨here.loses, here.wide keeps⟩

def roundPath : List (Command ℚ) :=
  [{ body := .move ⟨1 / 3, 1 / 7⟩ },
   { body := .arc ⟨5, 4, 0, 1, 1⟩ ⟨3, 4⟩, relative := true }]

def twoDecimals : Options ℚ := { flags := {}, makeArcs := none, precision := 2 }

theorem drawn_arcs_stay_round :
    ∃ (error : ℚ) (s : State ℚ) (origins : List (List (Source ℚ))), twoDecimals.error = .ok error ∧
      filterCommands noFit twoDecimals {} (rebase false roundPath) = .ok s.output.reverse ∧
      s.output.map (fun p => p.command.kind) = [.arc, .move] ∧
      List.Forall₂ (ArcsKept ⟨twoDecimals, {}, error, noFit⟩) s.drawn origins := by
  have written : (filterCommands noFit twoDecimals {} (rebase false roundPath)).toOption.any
      (fun placed => placed.map (fun p => p.command.kind) = [.move, .arc]) = true := by
    decide +kernel
  obtain ⟨placed, filtered, shape⟩ := Fault.ok_of_any written
  obtain ⟨error, s, origins, unit, rfl, _, kept⟩ := drawn_arcs_stay (by decide) filtered
  have kinds := of_decide_eq_true shape
  rw [List.map_reverse, List.reverse_eq_iff] at kinds
  exact ⟨error, s, origins, unit, filtered, kinds, kept⟩

-- A circle that is closed by less than a unit.
def almostCircle : List (Command Float) :=
  [{ body := .move ⟨0, 0⟩ }, { body := .arc ⟨5, 5, 0, 1, 1⟩ ⟨0.0001, 0⟩ }]

def threeDecimals : Options Float := { flags := {}, makeArcs := none, precision := 3 }

-- It is written as an arc that draws nothing.
theorem drawn_arcs_stay_closed :
    ∃ placed, filterCommands noFit threeDecimals {} (rebase false almostCircle) = .ok placed ∧
      (longhand almostCircle).map (fun g => (g.kind, g.isDegenerateArc)) =
        [(.move, false), (.arc, false)] ∧
      (longhand (Placed.commands placed)).map (fun g => (g.kind, g.isDegenerateArc)) =
        [(.move, false), (.arc, true)] := by
  have written : (filterCommands noFit threeDecimals {} (rebase false almostCircle)).toOption.any
      (fun placed => (longhand (Placed.commands placed)).map
        (fun g => (g.kind, g.isDegenerateArc)) = [(.move, false), (.arc, true)]) = true := by
    decide +kernel
  obtain ⟨placed, filtered, drawn⟩ := Fault.ok_of_any written
  exact ⟨placed, filtered, by decide +kernel, of_decide_eq_true drawn⟩

end Filter
end PathData
