import Mathlib
import PathData.Proofs.FilterSources
import PathData.Proofs.MarkerVertices

namespace PathData

open Fault (bind_ok)

section Kinds

theorem Kind.degree_of_curve {kind : Kind} (curve : kind.isCurve = true) : kind.degree ≠ 0 := by
  cases kind <;> first | decide | cases curve

variable {α : Type} [Scalar α]

theorem Pen.draw_isCurve (pen : Pen α) (c : Command α) :
    (pen.draw c).1.isCurve = c.kind.isCurve := by
  unfold Segment.isCurve Kind.isCurve
  rw [Pen.draw_kind]

theorem Pen.draw_pen {pen : Pen α} {c c' : Command α} (kind : c'.kind = c.kind)
    (same : (pen.draw c').1 = (pen.draw c).1) : (pen.draw c').2 = (pen.draw c).2 := by
  have moves : c'.isMove = c.isMove := by
    unfold Command.isMove
    rw [kind]
  have stops : c'.endPoint pen.position pen.subpathStart =
      c.endPoint pen.position pen.subpathStart :=
    congrArg Segment.stop same
  have handles : (pen.draw c').2.handle = (pen.draw c).2.handle := by
    rw [Pen.draw_handle, Pen.draw_handle, same]
  unfold Pen.draw at handles ⊢
  dsimp only at handles ⊢
  rw [handles, moves, stops]

end Kinds

open scoped PathData.Exact

variable {α : Type} [Field α] [LinearOrder α] [FloorRing α] [Exact.Roots α]

theorem Body.shift_injective {b b' : Body α} {d : Point α} (same : b'.shift d = b.shift d) :
    b' = b := by
  have back (b : Body α) : (b.shift d).shift (-d) = b := by
    have point (p : Point α) : p + d + -d = p :=
      Point.ext (add_neg_cancel_right p.x d.x) (add_neg_cancel_right p.y d.y)
    cases b <;> simp only [shift, point]
    · exact congrArg horizontal (add_neg_cancel_right _ d.x)
    · exact congrArg vertical (add_neg_cancel_right _ d.y)
  rw [← back b, ← back b', same]

theorem Pen.shape_body {pen : Pen α} {b b' : Body α} (kind : b'.kind = b.kind)
    (shape : (pen.shape b').1 = (pen.shape b).1) {start subpathStart : Point α}
    (stop : b'.endPoint .origin start subpathStart = b.endPoint .origin start subpathStart)
    (curved : b.kind.degree ≠ 0) : b' = b := by
  have point {p q : Point α} (equal : (Point.origin : Point α) + p = .origin + q) : p = q :=
    Point.ext (add_left_cancel (congrArg Point.x equal)) (add_left_cancel (congrArg Point.y equal))
  cases b with
  | cubic c1 c2 p =>
    cases b' <;> cases kind
    cases shape
    rw [point stop]
  | smoothCubic c2 p =>
    cases b' <;> cases kind
    cases shape
    rw [point stop]
  | quadratic c p =>
    cases b' <;> cases kind
    cases shape
    rw [point stop]
  | smoothQuadratic p =>
    cases b' <;> cases kind
    rw [point stop]
  | _ => exact absurd rfl curved

theorem Pen.draw_body {pen : Pen α} {c c' : Command α} (kind : c'.kind = c.kind)
    (relative : c'.relative = c.relative) (same : (pen.draw c').1 = (pen.draw c).1)
    (curve : c.kind.isCurve = true) : c'.body = c.body := by
  have curved := Kind.degree_of_curve curve
  have notClose : c.kind ≠ .close := by
    intro closes
    rw [closes] at curve
    cases curve
  have shape := congrArg Segment.shape same
  have stop := congrArg Segment.stop same
  change (pen.shape (c'.toAbsolute pen.position).body).1 =
    (pen.shape (c.toAbsolute pen.position).body).1 at shape
  change c'.endPoint pen.position pen.subpathStart = c.endPoint pen.position pen.subpathStart
    at stop
  unfold Command.toAbsolute at shape
  unfold Command.endPoint at stop
  rw [kind, relative] at shape
  rw [relative] at stop
  cases form : c.relative with
  | false =>
    simp only [form, Bool.not_false, Bool.true_or, if_true] at shape
    simp only [form, Bool.false_eq_true, if_false] at stop
    exact shape_body kind shape stop curved
  | true =>
    simp only [form, notClose, Bool.not_true, decide_false, Bool.or_self, Bool.false_eq_true,
      if_false] at shape
    simp only [form, if_true] at stop
    rw [← Body.endPoint_shift, ← Body.endPoint_shift] at stop
    have kinds : (c'.body.shift pen.position).kind = (c.body.shift pen.position).kind := by
      rw [Body.kind_shift, Body.kind_shift]
      exact kind
    exact Body.shift_injective (shape_body kinds shape stop (by rwa [Body.kind_shift]))

namespace Rebase

variable {pen : Pen α} {s s' : State α}

theorem step_alike (agrees : Agrees s pen) (agrees' : Agrees s' pen) (absolute : Bool)
    {c c' : Command α} (kind : c'.kind = c.kind) (same : (pen.draw c').1 = (pen.draw c).1) :
    Filter.Alike ⟨(step absolute s c).1.command, (pen.draw (step absolute s c).1.command).1⟩
      ⟨(step absolute s' c').1.command, (pen.draw (step absolute s' c').1.command).1⟩ := by
  have before := (step_draws agrees absolute c).1
  have after := (step_draws agrees' absolute c').1
  have drawn : (pen.draw (step absolute s' c').1.command).1 =
      (pen.draw (step absolute s c).1.command).1 := by
    rw [before, after, same]
  have kinds : (step absolute s' c').1.command.kind = (step absolute s c).1.command.kind := by
    rw [kind_step, kind_step, kind]
  refine ⟨drawn, kinds, ?_⟩
  intro curve
  change (pen.draw (step absolute s c).1.command).1.isCurve = true at curve
  rw [Pen.draw_isCurve] at curve
  have draws : c.kind ≠ .close := by
    intro closes
    rw [kind_step, closes] at curve
    cases curve
  have relative : (step absolute s' c').1.command.relative =
      (step absolute s c).1.command.relative := by
    rw [relative_step absolute s draws, relative_step absolute s' (kind ▸ draws)]
  have body := Pen.draw_body kinds relative drawn curve
  unfold Command.explicit
  rw [body, relative]

structure Shows (pen : Pen α) (cs others : List (Command α)) : Prop where
  kinds : others.map Command.kind = cs.map Command.kind
  drawn : pen.drawAll others = pen.drawAll cs

theorem Shows.cons {c c' : Command α} {cs others : List (Command α)}
    (shows : Shows pen (c :: cs) (c' :: others)) :
    c'.kind = c.kind ∧ (pen.draw c').1 = (pen.draw c).1 ∧ (pen.draw c').2 = (pen.draw c).2 ∧
      Shows (pen.draw c).2 cs others := by
  obtain ⟨kind, kinds⟩ := List.cons.inj shows.kinds
  obtain ⟨here, later⟩ := List.cons.inj shows.drawn
  have pens := Pen.draw_pen kind here
  change (pen.draw c').2.drawAll others = (pen.draw c).2.drawAll cs at later
  rw [pens] at later
  exact ⟨kind, here, pens, kinds, later⟩

theorem stepAll_alike (agrees : Agrees s pen) (agrees' : Agrees s' pen) (absolute : Bool)
    {cs others : List (Command α)} (shows : Shows pen cs others) :
    List.Forall₂ Filter.Alike
      (Filter.sourcesFrom pen (Placed.commands (stepAll absolute s cs)))
      (Filter.sourcesFrom pen (Placed.commands (stepAll absolute s' others))) := by
  induction cs generalizing pen s s' others with
  | nil =>
    obtain rfl := List.map_eq_nil_iff.1 shows.kinds
    exact .nil
  | cons c cs ih =>
    cases others with
    | nil => cases shows.kinds
    | cons c' others =>
      obtain ⟨kind, here, pens, later⟩ := shows.cons
      obtain ⟨before, after⟩ := step_draws agrees absolute c
      obtain ⟨before', after'⟩ := step_draws agrees' absolute c'
      refine .cons (step_alike agrees agrees' absolute kind here) ?_
      change List.Forall₂ _ (Filter.sourcesFrom (pen.draw (step absolute s c).1.command).2 _)
        (Filter.sourcesFrom (pen.draw (step absolute s' c').1.command).2 _)
      rw [before, before', pens]
      exact ih after (pens ▸ after') later

end Rebase

theorem rebase_alike (absolute : Bool) {path other : List (Command α)}
    (kinds : other.map Command.kind = path.map Command.kind)
    (same : longhand other = longhand path) :
    List.Forall₂ Filter.Alike (Filter.sourcesOf (Placed.commands (rebase absolute path)))
      (Filter.sourcesOf (Placed.commands (rebase absolute other))) := by
  have shows : Rebase.Shows .initial path other := ⟨kinds, same⟩
  cases path with
  | nil =>
    obtain rfl := List.map_eq_nil_iff.1 kinds
    exact .nil
  | cons c cs =>
    cases other with
    | nil => cases kinds
    | cons c' others =>
      have agrees : Rebase.Agrees (Rebase.initial : Rebase.State α) .initial := .initial
      obtain ⟨kind, here, pens, later⟩ := shows.cons
      obtain ⟨before, after⟩ := Rebase.step_draws agrees true c
      obtain ⟨before', after'⟩ := Rebase.step_draws agrees true c'
      refine .cons (Rebase.step_alike agrees agrees true kind here) ?_
      change List.Forall₂ _
        (Filter.sourcesFrom (Pen.initial.draw (Rebase.step true Rebase.initial c).1.command).2 _)
        (Filter.sourcesFrom (Pen.initial.draw (Rebase.step true Rebase.initial c').1.command).2 _)
      rw [before, before', pens]
      exact Rebase.stepAll_alike after (pens ▸ after') absolute later

namespace Pipeline

theorem rewritten_alike (fitter : ArcFitter α) (options : Options α) (style : Style)
    {path other : List (Command α)} (kinds : other.map Command.kind = path.map Command.kind)
    (same : longhand other = longhand path) :
    rewritten fitter ⟨other, options, style⟩ = rewritten fitter ⟨path, options, style⟩ := by
  have alike := rebase_alike options.flags.forceAbsolutePath kinds same
  unfold rewritten respelled
  dsimp only
  rw [Filter.filterCommands_alike alike]

def Fails (fitter : ArcFitter α) (job : Job α) : Prop :=
  ∃ entries, run (registry fitter) job = .ok entries ∧ failures entries ≠ []

theorem fails_of_rewritten {fitter : ArcFitter α} {job : Job α}
    (failed : rewritten fitter job = .error cause) : Fails fitter job := by
  have shows := runAll_shows fitter job
  rw [failed] at shows
  exact ⟨_, run_eq fitter job, shows⟩

end Pipeline

variable [IsStrictOrderedRing α]

theorem optimize_same_drawing (fitter : ArcFitter α) (options : Options α) (style : Style)
    {path other : List (Command α)} (opens : ∃ c, path.head? = some c ∧ c.kind = .move)
    (kinds : other.map Command.kind = path.map Command.kind)
    (same : longhand other = longhand path) :
    (∃ cs, optimize fitter ⟨path, options, style⟩ = .ok (some cs) ∧
        optimize fitter ⟨other, options, style⟩ = .ok (some cs)) ∨
      optimize fitter ⟨path, options, style⟩ = .ok none ∧
        optimize fitter ⟨other, options, style⟩ = .ok none ∧
        Pipeline.Fails fitter ⟨path, options, style⟩ ∧
        Pipeline.Fails fitter ⟨other, options, style⟩ := by
  have nonempty : path ≠ [] := by
    intro empty
    obtain ⟨c, first, _⟩ := opens
    rw [empty] at first
    cases first
  have others : other ≠ [] := by
    intro empty
    rw [empty] at kinds
    exact nonempty (List.map_eq_nil_iff.1 kinds.symm)
  have alike := Pipeline.rewritten_alike fitter options style kinds same
  cases made : Pipeline.rewritten fitter ⟨path, options, style⟩ with
  | error cause =>
    rw [made] at alike
    refine .inr ⟨?_, ?_, Pipeline.fails_of_rewritten made, Pipeline.fails_of_rewritten alike⟩
    · rw [Pipeline.optimize_eq fitter nonempty, made]
    · rw [Pipeline.optimize_eq fitter others, alike]
  | ok ps =>
    rw [made] at alike
    have answer {path : List (Command α)} (nonempty : path ≠ [])
        (made : Pipeline.rewritten fitter ⟨path, options, style⟩ = .ok ps) :
        optimize fitter ⟨path, options, style⟩ = .ok (some (Placed.commands ps)) := by
      obtain ⟨filtered, filters, _⟩ := bind_ok.1 made
      obtain ⟨left, again, _, optimized⟩ := Pipeline.optimize_rewritten filters nonempty
      cases made.symm.trans again
      exact optimized
    exact .inl ⟨_, answer nonempty made, answer others alike⟩

-- One drawing in two notations: absolute and relative forms are exchanged, a letter is left out and
-- a radius is negative.
def spelledPath : List (Command ℚ) :=
  [{ body := .move ⟨1 / 3, 1 / 7⟩ },
   { body := .line ⟨1, 2⟩ },
   { body := .arc ⟨5, 4, 0, 1, 0⟩ ⟨3, 4⟩, relative := true },
   { body := .quadratic ⟨1, 2⟩ ⟨8, 5⟩, relative := true },
   { body := .smoothQuadratic ⟨20, 1⟩ },
   { body := .close }]

def respelledPath : List (Command ℚ) :=
  [{ body := .move ⟨1 / 3, 1 / 7⟩, relative := true },
   { body := .line ⟨2 / 3, 13 / 7⟩, relative := true, implicit := true },
   { body := .arc ⟨-5, 4, 0, 2, 0⟩ ⟨4, 6⟩ },
   { body := .quadratic ⟨5, 8⟩ ⟨12, 11⟩ },
   { body := .smoothQuadratic ⟨8, -10⟩, relative := true },
   { body := .close, relative := true }]

def spelledOptions : Options ℚ :=
  { flags := { straightCurves := false }, makeArcs := none, precision := 2 }

theorem optimize_same_drawing_respelled :
    spelledPath ≠ respelledPath ∧ ∃ cs,
      optimize Filter.noFit ⟨spelledPath, spelledOptions, {}⟩ = .ok (some cs) ∧
      optimize Filter.noFit ⟨respelledPath, spelledOptions, {}⟩ = .ok (some cs) := by
  have answered : (optimize Filter.noFit ⟨spelledPath, spelledOptions, {}⟩).toOption.any
      Option.isSome = true := by
    decide +kernel
  refine ⟨by decide +kernel, ?_⟩
  have opens : ∃ c, spelledPath.head? = some c ∧ c.kind = .move := ⟨_, rfl, rfl⟩
  rcases optimize_same_drawing Filter.noFit spelledOptions {} opens
    (show respelledPath.map Command.kind = spelledPath.map Command.kind by decide)
    (by decide +kernel) with same | ⟨kept, _⟩
  · exact same
  · rw [kept] at answered
    cases answered

end PathData
