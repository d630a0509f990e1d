import Mathlib
import PathData.Proofs.FilterAccuracy
import PathData.Proofs.FilterLicences
import PathData.Proofs.Redrawing

namespace PathData

open scoped PathData.Exact
open Fault (bind_ok)

variable {α : Type} [Field α] [LinearOrder α] [IsStrictOrderedRing α] [FloorRing α]

namespace Grid

def Vertex (digits : ℤ) (p : Point α) : Prop :=
  Multiple digits p.x ∧ Multiple digits p.y

namespace Vertex

variable {digits precision : ℤ} {p q : Point α}

theorem on (few : precision < 20) (vertex : Vertex precision p) : PointOn precision p :=
  ⟨vertex.1.on few, vertex.2.on few⟩

theorem eq_of_close (left : Vertex digits p) (right : Vertex digits q)
    (close : Close (1 / 10 ^ digits) p q) : p = q :=
  Point.ext (left.1.eq_of_close right.1 close.1) (left.2.eq_of_close right.2 close.2)

end Vertex

omit [LinearOrder α] [IsStrictOrderedRing α] [FloorRing α] in
theorem PointOn.both {precision : ℤ} {p : Point α} (on : PointOn precision p) :
    ∀ x ∈ [p.x, p.y], On precision x := by
  intro x member
  rcases List.mem_pair.1 member with rfl | rfl
  · exact on.1
  · exact on.2

end Grid

variable [Exact.Roots α]

omit [IsStrictOrderedRing α] in
theorem Grid.origin_vertex (digits : ℤ) : Vertex digits (.origin : Point α) := by
  have zero : Multiple digits ((0 : ℕ) : α) := by
    rw [Nat.cast_zero]
    exact Multiple.zero digits
  exact ⟨zero, zero⟩

structure Grid.Stroke (digits : ℤ) (c : Command α) : Prop where
  kind : c.kind = .move ∨ c.kind.isLine = true
  numbers : ∀ x ∈ c.body.numbers, Multiple digits x

omit [IsStrictOrderedRing α] in
theorem Grid.Stroke.vertex {digits : ℤ} {c : Command α} {start subpathStart : Point α}
    (stroke : Stroke digits c) (starts : Vertex digits start) :
    Vertex digits (c.endPoint start subpathStart) := by
  obtain ⟨lines, numbers⟩ := stroke
  have base : Vertex digits (if c.relative then start else .origin) := by
    split
    · exact starts
    · exact origin_vertex digits
  unfold Command.endPoint
  unfold Command.kind at lines
  cases body : c.body with
  | move p | line p =>
    rw [body] at numbers
    have onX := numbers p.x (by simp [Body.numbers, Body.args])
    have onY := numbers p.y (by simp [Body.numbers, Body.args])
    exact ⟨base.1.add onX, base.2.add onY⟩
  | horizontal x =>
    rw [body] at numbers
    exact ⟨base.1.add (numbers x List.mem_cons_self), starts.2⟩
  | vertical y =>
    rw [body] at numbers
    exact ⟨starts.1, base.2.add (numbers y List.mem_cons_self)⟩
  | _ => simp [body, Body.kind, Kind.isLine] at lines

namespace Filter

variable {f : Setup α} {s t : State α} {pen : Pen α}

theorem place_exact (body : Body α) {start : Point α}
    (numbers : ∀ x ∈ body.numbers, Grid.On f.options.precision x)
    (starts : Grid.PointOn f.options.precision start) (absolute : Bool) :
    ∃ c, f.place body start absolute = .ok c ∧ ∀ subpathStart,
      c.endPoint start subpathStart = ({ body } : Command α).endPoint start subpathStart := by
  unfold Setup.place
  dsimp only
  split
  · exact ⟨_, Grid.roundCommand_of_on f.error numbers, fun _ => rfl⟩
  · have on : Grid.CommandOn f.options.precision (Command.toRelative { body } start) :=
      Grid.toRelative_on numbers starts
    refine ⟨_, Grid.roundCommand_of_on f.error on, ?_⟩
    intro subpathStart
    have drawn := Pen.draw_toRelative ⟨start, subpathStart, {}⟩ ({ body } : Command α)
    exact congrArg (fun drawn => drawn.1.stop) drawn

omit [IsStrictOrderedRing α] in
theorem origin_add (p : Point α) : .origin + p = p := by
  have zero (x : α) : ((0 : ℕ) : α) + x = x := by simp
  exact Point.ext (zero p.x) (zero p.y)

structure Squared (f : Setup α) (s : State α) : Prop where
  cursor : Grid.Vertex f.options.precision s.cursor
  subpathStart : Grid.Vertex f.options.precision s.subpathStart

theorem line_exact (keeps : Keeps f) (squared : Squared f s)
    (on : Grid.Vertex f.options.precision stop) (form : LineForm f s stop own trailing steps) :
    ∃ step, steps = [step] ∧ step.command.endPoint s.cursor s.subpathStart = stop := by
  have stops := on.on keeps.few
  have unit := keeps.error_eq
  have lands {body : Body α} {c : Command α} (placed : f.place body s.cursor false = .ok c)
      (numbers : ∀ x ∈ body.numbers, Grid.On f.options.precision x) :
      c.endPoint s.cursor s.subpathStart =
        ({ body } : Command α).endPoint s.cursor s.subpathStart := by
    obtain ⟨c', again, ends⟩ := place_exact _ numbers (squared.cursor.on keeps.few) false
    cases placed.symm.trans again
    exact ends s.subpathStart
  have there := origin_add stop
  cases form with
  | line placed =>
    exact ⟨_, rfl, (lands placed stops.both).trans there⟩
  | horizontal _ level placed =>
    have flat : stop.y = s.cursor.y :=
      on.2.eq_of_close squared.cursor.2 (unit ▸ not_le.1 level)
    have alone := lands placed (List.forall_mem_singleton.2 stops.1)
    refine ⟨_, rfl, alone.trans (Point.ext ?_ flat.symm)⟩
    have same := congrArg Point.x there
    exact same
  | vertical _ plumb placed =>
    have upright : stop.x = s.cursor.x :=
      on.1.eq_of_close squared.cursor.1 (unit ▸ not_le.1 plumb)
    have alone := lands placed (List.forall_mem_singleton.2 stops.2)
    refine ⟨_, rfl, alone.trans (Point.ext upright.symm ?_)⟩
    have same := congrArg Point.y there
    exact same
  | close _ _ near =>
    exact ⟨_, rfl, (on.eq_of_close squared.subpathStart (unit ▸ near_iff.1 near)).symm⟩

structure Ruled (digits : ℤ) (source : Source α) : Prop where
  shape : source.segment.shape = .move ∨ source.segment.shape = .line
  stop : Grid.Vertex digits source.segment.stop

-- What becomes of such a source: nothing, or one command that ends where it does.
inductive Plots (f : Setup α) (s : State α) (source : Source α) : State α → Prop where
  | dropped (kept : writtenFrom f s source = s) (there : source.segment.stop = s.cursor)
      (shape : source.segment.shape = .line) : Plots f s source s
  | written {step : Step α}
      (ends : step.command.endPoint (writtenFrom f s source).cursor
        (writtenFrom f s source).subpathStart = source.segment.stop)
      (moves : step.command.isMove = source.segment.isMove) :
      Plots f s source ((writtenFrom f s source).emit step)

-- The output is on the grid, and a renderer of it is where one of the input is.
structure Aligned (f : Setup α) (s : State α) (pen : Pen α) : Prop extends Squared f s where
  position : s.cursor = pen.position
  subpath : s.subpathStart = pen.subpathStart
  starts : ∀ p ∈ s.output, Grid.Vertex f.options.precision p.start

omit [IsStrictOrderedRing α] in
theorem writtenFrom_squared (aligned : Aligned f s pen) (source : Source α) :
    Squared f (writtenFrom f s source) ∧
      (writtenFrom f s source).subpathStart = s.subpathStart := by
  have subpath : (writtenFrom f s source).subpathStart = s.subpathStart := by
    unfold writtenFrom
    split
    · split
      · rfl
      · exact collapse_subpathStart f s _
    · rfl
  refine ⟨⟨?_, subpath ▸ aligned.subpathStart⟩, subpath⟩
  rcases writtenFrom_cases f s source with kept | ⟨_, _, _, p, popped, _⟩
  · rw [kept]
    exact aligned.cursor
  · rw [pop_cursor popped]
    exact aligned.starts p (pop_output popped ▸ List.mem_cons_self)

theorem visits_plots (keeps : Keeps f) (aligned : Aligned f s pen) {source : Source α}
    (ruled : Ruled f.options.precision source)
    (visits : Visits f s isFirst source rest next taken) : taken = 0 ∧ Plots f s source next := by
  have plain {shape : Shape α} (here : source.segment.shape = shape) (notMove : shape ≠ .move)
      (notLine : shape ≠ .line) : False :=
    ruled.shape.elim (fun move => notMove (here.symm.trans move))
      fun line => notLine (here.symm.trans line)
  have curved (curve : source.segment.isCurve = true) : False := by
    rcases ruled.shape with shape | shape <;> simp [Segment.isCurve, Segment.kind, shape] at curve
  cases visits with
  | dropClose shape | close shape | arc shape =>
    exact (plain shape (by simp) (by simp)).elim
  | run curve | curve curve => exact (curved curve).elim
  | @move c shape placed =>
    have kept : writtenFrom f s source = s := writtenFrom_eq (by simp [shape])
    obtain ⟨c', again, ends⟩ := place_exact (.move source.segment.stop)
      (ruled.stop.on keeps.few).both (aligned.cursor.on keeps.few) isFirst
    cases placed.symm.trans again
    have plotted : Plots f s source ((writtenFrom f s source).emit { command := c }) := by
      refine .written ?_ ?_
      · rw [kept]
        exact (ends _).trans (origin_add _)
      · rw [Segment.isMove_iff.2 shape]
        exact decide_eq_true (Command.kind_place placed)
    rw [kept] at plotted
    exact ⟨rfl, plotted⟩
  | drop notMove _ useless =>
    have shape := ruled.shape.resolve_left notMove
    refine ⟨rfl, .dropped (writtenFrom_useless useless) ?_ shape⟩
    have near : source.segment.stop.near s.cursor f.error = true := by
      simp only [isUseless, shape, Segment.points, List.tail_cons, List.all_cons, List.all_nil,
        Bool.and_true, Bool.and_eq_true] at useless
      exact useless.2
    exact ruled.stop.eq_of_close aligned.cursor (keeps.error_eq ▸ near_iff.1 near)
  | line shape needed form =>
    rw [← writtenFrom_needed shape needed] at form ⊢
    have writes := line_writes form
    obtain ⟨step, rfl, ends⟩ :=
      line_exact keeps (writtenFrom_squared aligned source).1 ruled.stop form
    refine ⟨rfl, .written ends ?_⟩
    have draws := writes.draws step List.mem_cons_self
    simp [Command.isMove, draws, Segment.isMove, Segment.kind, shape]

omit [IsStrictOrderedRing α] in
theorem plots_aligned (aligned : Aligned f s pen) {source : Source α} {pen' : Pen α}
    (ruled : Ruled f.options.precision source) (follows : Follows pen source pen')
    (plots : Plots f s source next) : Aligned f next pen' := by
  cases plots with
  | dropped _ there shape =>
    refine ⟨aligned.toSquared, ?_, ?_, aligned.starts⟩
    · exact there.symm.trans follows.position.symm
    · exact aligned.subpath.trans (follows.keeps (by simp [shape])).symm
  | @written step ends moves =>
    obtain ⟨squared, subpath⟩ := writtenFrom_squared aligned source
    have cursor : ((writtenFrom f s source).emit step).cursor = source.segment.stop := ends
    have starts : ((writtenFrom f s source).emit step).subpathStart = pen'.subpathStart := by
      unfold State.emit
      dsimp only
      rw [Command.isMove_tagAfter, moves, ends]
      split
      · rename_i isMove
        exact (follows.moves (Segment.isMove_iff.1 isMove)).symm
      · rename_i draws
        rw [follows.keeps (mt Segment.isMove_iff.2 draws), subpath, aligned.subpath]
    refine ⟨⟨cursor ▸ ruled.stop, ?_⟩, cursor.trans follows.position.symm, starts, ?_⟩
    · rw [starts]
      by_cases shape : source.segment.shape = .move
      · rw [follows.moves shape]
        exact ruled.stop
      · rw [follows.keeps shape, ← aligned.subpath]
        exact aligned.subpathStart
    · intro p member
      rcases List.mem_cons.1 member with rfl | earlier
      · exact squared.cursor
      · apply aligned.starts p
        rcases writtenFrom_cases f s source with kept | ⟨_, _, _, q, popped, _⟩
        · exact kept ▸ earlier
        · exact pop_output popped ▸ List.mem_cons_of_mem q earlier

theorem lineCandidates_total (keeps : Keeps f) (squared : Squared f s)
    (on : Grid.Vertex f.options.precision stop) (own : Kind) (trailing : Bool) :
    ∃ candidates, lineCandidates f s stop own trailing = .ok candidates := by
  have stops := on.on keeps.few
  have placed (body : Body α) (numbers : ∀ x ∈ body.numbers, Grid.On f.options.precision x) :
      ∃ c, f.place body s.cursor false = .ok c := by
    obtain ⟨c, placed, _⟩ := place_exact _ numbers (squared.cursor.on keeps.few) false
    exact ⟨c, placed⟩
  have steps : ∀ kind ∈ lineKinds own, ∃ step, lineStep? f s stop own kind = .ok step := by
    intro kind _
    unfold lineStep?
    cases kind with
    | horizontal =>
      dsimp only
      split
      · exact ⟨_, rfl⟩
      · obtain ⟨c, placed⟩ := placed (.horizontal stop.x) (by
          simpa [Body.numbers, Body.args] using stops.1)
        exact ⟨_, bind_ok.2 ⟨c, placed, rfl⟩⟩
    | vertical =>
      dsimp only
      split
      · exact ⟨_, rfl⟩
      · obtain ⟨c, placed⟩ := placed (.vertical stop.y) (by
          simpa [Body.numbers, Body.args] using stops.2)
        exact ⟨_, bind_ok.2 ⟨c, placed, rfl⟩⟩
    | _ =>
      obtain ⟨c, placed⟩ := placed (.line stop) stops.both
      exact ⟨_, bind_ok.2 ⟨c, placed, rfl⟩⟩
  obtain ⟨lines, mapped⟩ := Fault.mapM_total steps
  exact ⟨_, bind_ok.2 ⟨lines, mapped, rfl⟩⟩

theorem visit_total (keeps : Keeps f) (aligned : Aligned f s pen) {source : Source α}
    (ruled : Ruled f.options.precision source) (isFirst : Bool) (rest : List (Source α)) :
    ∃ result, visit f s isFirst source rest = .ok result := by
  unfold visit
  dsimp only
  rcases ruled.shape with shape | shape
  · rw [shape]
    obtain ⟨c, placed, _⟩ := place_exact (.move source.segment.stop)
      (ruled.stop.on keeps.few).both (aligned.cursor.on keeps.few) isFirst
    exact ⟨_, bind_ok.2 ⟨c, placed, rfl⟩⟩
  · have plain : source.segment.isCurve = false := by
      simp [Segment.isCurve, Segment.kind, shape]
    rw [shape, plain]
    dsimp only
    split
    · rename_i curve
      cases curve
    · split
      · exact ⟨_, rfl⟩
      · rename_i needed
        have base := writtenFrom_needed shape (Bool.eq_false_iff.2 needed)
        obtain ⟨candidates, written⟩ :=
          lineCandidates_total keeps (writtenFrom_squared aligned source).1 ruled.stop
            source.command.kind (isTrailing rest)
        have drawn : ∃ next, draw f s source (isTrailing rest) = .ok next := by
          unfold draw
          simp only [shape, pure_bind, ← base]
          obtain ⟨first, others, rfl⟩ :=
            List.exists_cons_of_ne_nil (lineCandidates_nonempty written)
          exact ⟨_, bind_ok.2 ⟨_, written, rfl⟩⟩
        obtain ⟨next, drawn⟩ := drawn
        exact ⟨_, bind_ok.2 ⟨next, drawn, rfl⟩⟩

omit [IsStrictOrderedRing α] in
theorem sources_ruled {digits : ℤ} {cs : List (Command α)}
    (strokes : ∀ c ∈ cs, Grid.Stroke digits c) (starts : Grid.Vertex digits pen.position) :
    ∀ source ∈ sourcesFrom pen cs, Ruled digits source := by
  induction cs generalizing pen with
  | nil => nofun
  | cons c rest ih =>
    obtain ⟨stroke, later⟩ := List.forall_mem_cons.1 strokes
    have stop : Grid.Vertex digits (pen.draw c).1.stop := stroke.vertex starts
    refine List.forall_mem_cons.2 ⟨⟨?_, stop⟩, ih later stop⟩
    have kind := Pen.draw_kind pen c
    change (pen.draw c).1.shape = .move ∨ (pen.draw c).1.shape = .line
    rcases stroke.kind with move | line
    · rw [move] at kind
      exact .inl (Segment.isMove_iff.1 (decide_eq_true kind))
    · right
      have drawn : c.kind.drawn = .line := by
        cases own : c.kind <;> rw [own] at line <;> first | rfl | cases line
      rw [drawn] at kind
      unfold Segment.kind at kind
      cases shape : (pen.draw c).1.shape <;> rw [shape] at kind <;> first | rfl | cases kind

omit [IsStrictOrderedRing α] in
theorem Aligned.initial (f : Setup α) : Aligned f .initial .initial := by
  have origin := Grid.origin_vertex (α := α) f.options.precision
  exact ⟨⟨origin, origin⟩, rfl, rfl, nofun⟩

theorem reached_first (keeps : Keeps f) {cs : List (Command α)} {source : Source α}
    {rest : List (Source α)} (sources : sourcesOf cs = source :: rest)
    (ruled : Ruled f.options.precision source) :
    ∃ s, Reached f (sourcesOf cs) s 1 ∧ s.cursor = source.segment.stop := by
  have initial := Aligned.initial f
  obtain ⟨⟨next, taken⟩, visited⟩ := visit_total keeps initial ruled true rest
  obtain ⟨rfl, plots⟩ := visits_plots keeps initial ruled (visit_sound visited)
  obtain ⟨pen, follows, _, _⟩ := source_ahead (k := 0) sources
  refine ⟨next, .step .initial sources visited, ?_⟩
  exact (plots_aligned initial ruled follows plots).position.trans follows.position

theorem visitAll_total (keeps : Keeps f) {cs : List (Command α)} (aligned : Aligned f s pen)
    (ruled : ∀ source ∈ sourcesFrom pen cs, Ruled f.options.precision source) (isFirst : Bool) :
    ∃ last, visitAll f s isFirst 0 (sourcesFrom pen cs) = .ok last := by
  induction cs generalizing s pen isFirst with
  | nil => exact ⟨s, rfl⟩
  | cons c rest ih =>
    obtain ⟨here, later⟩ := List.forall_mem_cons.1 ruled
    obtain ⟨⟨next, taken⟩, visited⟩ :=
      visit_total keeps aligned here isFirst (sourcesFrom (pen.draw c).2 rest)
    obtain ⟨rfl, plots⟩ := visits_plots keeps aligned here (visit_sound visited)
    obtain ⟨last, ran⟩ := ih (plots_aligned aligned here (draw_follows pen c) plots) later false
    exact ⟨last, bind_ok.2 ⟨(next, 0), visited, ran⟩⟩

end Filter
end PathData
