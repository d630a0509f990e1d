import Mathlib.Data.List.Forall2
import PathData.Filter.Candidates

namespace PathData

theorem forall₂_right {R : α → β → Prop} {xs : List α} {ys : List β}
    (related : List.Forall₂ R xs ys) (member : y ∈ ys) : ∃ x ∈ xs, R x y := by
  induction related with
  | nil => cases member
  | cons here _ later =>
    cases member with
    | head => exact ⟨_, List.mem_cons_self, here⟩
    | tail _ member =>
      obtain ⟨x, member, answered⟩ := later member
      exact ⟨x, List.mem_cons_of_mem _ member, answered⟩

theorem forall₂_left {R : α → β → Prop} {xs : List α} {ys : List β}
    (related : List.Forall₂ R xs ys) (member : x ∈ xs) : ∃ y ∈ ys, R x y :=
  forall₂_right related.flip member

namespace Fault

theorem bind_ok {x : Except Fault α} {g : α → Except Fault β} {b : β} :
    (x >>= g) = .ok b ↔ ∃ a, x = .ok a ∧ g a = .ok b := by
  cases x with
  | error cause => simp [bind, Except.bind]
  | ok a => simp [bind, Except.bind]

theorem pure_ok {a b : α} : (pure a : Except Fault α) = .ok b ↔ a = b := by
  simp [pure, Except.pure]

theorem bind_error {x : Except Fault α} {g : α → Except Fault β} {cause : Fault} :
    (x >>= g) = .error cause ↔ x = .error cause ∨ ∃ a, x = .ok a ∧ g a = .error cause := by
  cases x with
  | error => simp [bind, Except.bind]
  | ok => simp [bind, Except.bind]

theorem bind_congr_ok {x : Except Fault α} {g h : α → Except Fault β}
    (same : ∀ a, x = .ok a → g a = h a) : x >>= g = x >>= h := by
  cases x with
  | error => rfl
  | ok a => exact same a rfl

theorem ok_of_any {ε : Type} {x : Except ε β} {P : β → Bool} (evaluated : x.toOption.any P = true) :
    ∃ b, x = .ok b ∧ P b = true := by
  cases x with
  | error => cases evaluated
  | ok b => exact ⟨b, rfl, evaluated⟩

theorem mapM_ok {g : α → Except Fault β} {xs : List α} {ys : List β} (mapped : xs.mapM g = .ok ys) :
    List.Forall₂ (fun x y => g x = .ok y) xs ys := by
  induction xs generalizing ys with
  | nil =>
    rw [List.mapM_nil, pure_ok] at mapped
    exact mapped ▸ .nil
  | cons x xs ih =>
    rw [List.mapM_cons, bind_ok] at mapped
    obtain ⟨y, here, mapped⟩ := mapped
    rw [bind_ok] at mapped
    obtain ⟨rest, later, made⟩ := mapped
    exact pure_ok.1 made ▸ .cons here (ih later)

theorem mapM_iff {g : α → Except Fault β} {xs : List α} {ys : List β} :
    xs.mapM g = .ok ys ↔ List.Forall₂ (fun x y => g x = .ok y) xs ys := by
  refine ⟨mapM_ok, fun answered => ?_⟩
  induction answered with
  | nil => rfl
  | cons here _ ih =>
    rw [List.mapM_cons, bind_ok]
    exact ⟨_, here, bind_ok.2 ⟨_, ih, rfl⟩⟩

theorem mapM_total {g : α → Except Fault β} {xs : List α} (total : ∀ x ∈ xs, ∃ y, g x = .ok y) :
    ∃ ys, xs.mapM g = .ok ys := by
  induction xs with
  | nil => exact ⟨[], rfl⟩
  | cons x rest ih =>
    obtain ⟨here, later⟩ := List.forall_mem_cons.1 total
    obtain ⟨y, answers⟩ := here
    obtain ⟨ys, answered⟩ := ih later
    rw [List.mapM_cons]
    exact ⟨y :: ys, bind_ok.2 ⟨y, answers, bind_ok.2 ⟨ys, answered, rfl⟩⟩⟩

theorem mapM_self {g : α → Except Fault α} {xs : List α} (fixed : ∀ x ∈ xs, g x = .ok x) :
    xs.mapM g = .ok xs := by
  induction xs with
  | nil => rfl
  | cons x rest ih =>
    rw [List.mapM_cons, fixed x List.mem_cons_self]
    have later := ih fun y member => fixed y (List.mem_cons_of_mem _ member)
    exact bind_ok.2 ⟨x, rfl, bind_ok.2 ⟨rest, later, rfl⟩⟩

end Fault

namespace Filter

open scoped PathData.Scalar
open Fault (bind_ok pure_ok)

variable {α : Type} [Scalar α] {f : Setup α} {s : State α}

def Step.plain (c : Command α) : List (Step α) := [{ command := c }]

inductive LineForm (f : Setup α) (s : State α) (stop : Point α) (own : Kind) (trailing : Bool) :
    List (Step α) → Prop where
  | line {c : Command α} (placed : f.place (.line stop) s.cursor false = .ok c) :
      LineForm f s stop own trailing (Step.plain c)
  | horizontal {c : Command α} (allowed : own = .horizontal ∨ f.flags.lineShorthands = true)
      (level : ¬ f.error ≤ Scalar.abs (stop.y - s.cursor.y))
      (placed : f.place (.horizontal stop.x) s.cursor false = .ok c) :
      LineForm f s stop own trailing (Step.plain c)
  | vertical {c : Command α} (allowed : own = .vertical ∨ f.flags.lineShorthands = true)
      (plumb : ¬ f.error ≤ Scalar.abs (stop.x - s.cursor.x))
      (placed : f.place (.vertical stop.y) s.cursor false = .ok c) :
      LineForm f s stop own trailing (Step.plain c)
  | close (allowed : f.flags.convertToZ = true ∧ f.style.isSafeToUseZ = true)
      (last : trailing = true) (near : stop.near s.subpathStart f.error = true) :
      LineForm f s stop own trailing (Step.plain { body := .close })

theorem lineStep_sound (stepped : lineStep? f s stop own kind = .ok (some steps)) :
    LineForm f s stop own trailing steps := by
  unfold lineStep? at stepped
  cases kind with
  | horizontal =>
    simp only at stepped
    split at stepped
    · cases stepped
    · rename_i offered
      obtain ⟨c, placed, made⟩ := bind_ok.1 stepped
      cases made
      simp only [Bool.or_eq_true, Bool.not_eq_true', decide_eq_true_eq, not_or,
        Bool.not_eq_false] at offered
      exact .horizontal offered.1 offered.2 placed
  | vertical =>
    simp only at stepped
    split at stepped
    · cases stepped
    · rename_i offered
      obtain ⟨c, placed, made⟩ := bind_ok.1 stepped
      cases made
      simp only [Bool.or_eq_true, Bool.not_eq_true', decide_eq_true_eq, not_or,
        Bool.not_eq_false] at offered
      exact .vertical offered.1 offered.2 placed
  | _ =>
    obtain ⟨c, placed, made⟩ := bind_ok.1 stepped
    cases made
    exact .line placed

theorem lineCandidates_sound (written : lineCandidates f s stop own trailing = .ok candidates) :
    ∀ steps ∈ candidates, LineForm f s stop own trailing steps := by
  intro steps member
  obtain ⟨lines, mapped, made⟩ := bind_ok.1 written
  rw [← pure_ok.1 made, List.mem_append] at member
  cases member with
  | inl inLines =>
    obtain ⟨_, inLines, rfl⟩ := List.mem_filterMap.1 inLines
    obtain ⟨kind, _, stepped⟩ := forall₂_right (Fault.mapM_ok mapped) inLines
    exact lineStep_sound stepped
  | inr closing =>
    split at closing
    · rename_i offered
      rw [List.mem_singleton] at closing
      subst closing
      simp only [Bool.and_eq_true] at offered
      exact .close offered.1.1 offered.1.2 offered.2
    · cases closing

theorem lineCandidates_nonempty (written : lineCandidates f s stop own trailing = .ok candidates) :
    candidates ≠ [] := by
  obtain ⟨lines, mapped, made⟩ := bind_ok.1 written
  have offered : Kind.line ∈ lineKinds own := by cases own <;> decide
  obtain ⟨line, member, stepped⟩ := forall₂_left (Fault.mapM_ok mapped) offered
  obtain ⟨c, _, placed⟩ := bind_ok.1 stepped
  have inLines : Step.plain c ∈ lines.filterMap id :=
    List.mem_filterMap.2 ⟨line, member, (pure_ok.1 placed).symm⟩
  rw [← pure_ok.1 made]
  exact List.append_ne_nil_of_left_ne_nil (List.ne_nil_of_mem inLines) _

inductive CubicForm (f : Setup α) (s : State α) (c1 c2 stop : Point α) (source : Kind) :
    List (Step α) → Prop where
  | full {c : Command α} (placed : f.place (.cubic c1 c2 stop) s.cursor false = .ok c) :
      CubicForm f s c1 c2 stop source
        [{ command := c, handle := ⟨renderedControl c s.cursor, 3⟩ }]
  | smooth {c : Command α}
      (allowed : f.flags.curveSmoothShorthands = true ∨ source = .smoothCubic)
      (near : (s.handle.implied 3 s.cursor).near c1 f.error = true)
      (placed : f.place (.smoothCubic c2 stop) s.cursor false = .ok c) :
      CubicForm f s c1 c2 stop source
        [{ command := c, handle := ⟨renderedControl c s.cursor, 3⟩ }]

inductive QuadraticForm (f : Setup α) (s : State α) (control stop : Point α) (shorthand : Bool) :
    List (Step α) → Prop where
  | full {c : Command α} (placed : f.place (.quadratic control stop) s.cursor false = .ok c) :
      QuadraticForm f s control stop shorthand
        [{ command := c, handle := ⟨renderedControl c s.cursor, 2⟩ }]
  | smooth {c : Command α} (allowed : shorthand = true)
      (near : (s.handle.implied 2 s.cursor).near control f.error = true)
      (placed : f.place (.smoothQuadratic stop) s.cursor false = .ok c) :
      QuadraticForm f s control stop shorthand
        [{ command := c, handle := .quadratic (s.handle.implied 2 s.cursor) }]

theorem reflected_some {control : Point α}
    (reflects : reflected? f s control degree = some implied) :
    implied = s.handle.implied degree s.cursor ∧
      (s.handle.implied degree s.cursor).near control f.error = true := by
  unfold reflected? at reflects
  dsimp only at reflects
  split at reflects
  · rename_i near
    cases reflects
    exact ⟨rfl, near⟩
  · cases reflects

theorem mem_sourceFirst {forms : List β} : form ∈ sourceFirst shorthand forms ↔ form ∈ forms := by
  unfold sourceFirst
  split
  · exact List.mem_reverse
  · exact Iff.rfl

theorem cubicForms_sound (written : cubicForms f s c1 c2 stop source = .ok candidates) :
    candidates ≠ [] ∧ ∀ steps ∈ candidates, CubicForm f s c1 c2 stop source steps := by
  obtain ⟨full, placedFull, written⟩ := bind_ok.1 written
  split at written
  · rename_i offered
    obtain ⟨smooth, placed, made⟩ := bind_ok.1 written
    simp only [Bool.and_eq_true, Bool.or_eq_true, decide_eq_true_eq] at offered
    obtain ⟨implied, reflects⟩ := Option.isSome_iff_exists.1 offered.2
    have written := pure_ok.1 made
    subst written
    refine ⟨?_, ?_⟩
    · unfold sourceFirst
      split <;> simp
    · intro steps member
      simp only [mem_sourceFirst, List.mem_cons, List.not_mem_nil, or_false] at member
      cases member with
      | inl isFull => exact isFull ▸ .full placedFull
      | inr isSmooth =>
        exact isSmooth ▸ .smooth offered.1 (reflected_some reflects).2 placed
  · have written := pure_ok.1 written
    subst written
    refine ⟨by simp, ?_⟩
    intro steps member
    exact List.mem_singleton.1 member ▸ .full placedFull

theorem quadraticForms_sound {control : Point α}
    (written : quadraticForms f s control stop shorthand = .ok candidates) :
    candidates ≠ [] ∧ ∀ steps ∈ candidates, QuadraticForm f s control stop shorthand steps := by
  obtain ⟨full, placedFull, written⟩ := bind_ok.1 written
  split at written
  · have written := pure_ok.1 written
    subst written
    refine ⟨by simp, ?_⟩
    intro steps member
    exact List.mem_singleton.1 member ▸ .full placedFull
  · rename_i implied offered
    obtain ⟨smooth, placed, made⟩ := bind_ok.1 written
    have written := pure_ok.1 made
    subst written
    split at offered
    · rename_i allowed
      obtain ⟨rfl, near⟩ := reflected_some offered
      refine ⟨by simp, ?_⟩
      intro steps member
      simp only [List.mem_cons, List.not_mem_nil, or_false] at member
      cases member with
      | inl isFull => exact isFull ▸ .full placedFull
      | inr isSmooth => exact isSmooth ▸ .smooth allowed near placed
    · cases offered

-- A fitted arc in one piece has the radius of the fit or a shorter one; a full turn has two halves.
inductive FittedForm (f : Setup α) (s : State α) (fit : ArcFit α) (trueStart stop : Point α) :
    List (Step α) → Prop where
  | turn {first second : Command α} (whole : fit.fullTurn = true)
      (leaves : f.place (circular fit.radius false fit.sweep (trueStart.reflect fit.center))
        s.cursor false = .ok first)
      (returns : f.place (circular fit.radius false fit.sweep stop)
        (first.endPoint s.cursor s.subpathStart) false = .ok second) :
      FittedForm f s fit trueStart stop [{ command := first }, { command := second }]
  | part {c : Command α} {radius : α} (notWhole : fit.fullTurn = false)
      (chosen : f.flags.smartArcRounding = true ∧
          smartRadius f s fit.radius stop fit.large = .ok radius ∨
        f.flags.smartArcRounding = false ∧ radius = fit.radius)
      (placed : f.place (circular radius fit.large fit.sweep stop) s.cursor false = .ok c) :
      FittedForm f s fit trueStart stop (Step.plain c)

theorem fittedSteps_sound (written : fittedSteps f s fit trueStart stop = .ok steps) :
    FittedForm f s fit trueStart stop steps := by
  unfold fittedSteps at written
  split at written
  · rename_i whole
    obtain ⟨first, leaves, written⟩ := bind_ok.1 written
    obtain ⟨second, returns, made⟩ := bind_ok.1 written
    exact pure_ok.1 made ▸ .turn whole leaves returns
  · rename_i notWhole
    have part := Bool.eq_false_iff.2 notWhole
    dsimp only at written
    split at written
    · rename_i smart
      obtain ⟨radius, chosen, written⟩ := bind_ok.1 written
      obtain ⟨c, placed, made⟩ := bind_ok.1 written
      exact pure_ok.1 made ▸ .part part (.inl ⟨smart, chosen⟩) placed
    · rename_i exactly
      obtain ⟨radius, chosen, written⟩ := bind_ok.1 written
      obtain ⟨c, placed, made⟩ := bind_ok.1 written
      exact pure_ok.1 made ▸
        .part part (.inr ⟨Bool.eq_false_iff.2 exactly, (pure_ok.1 chosen).symm⟩) placed

inductive CurveForm (f : Setup α) (s : State α) (segment : Segment α) (source : Kind)
    (trailing : Bool) : List (Step α) → Prop where
  | cubic {c1 c2 : Point α} {steps : List (Step α)} (shape : segment.shape = .cubic c1 c2)
      (form : CubicForm f s c1 c2 segment.stop source steps) :
      CurveForm f s segment source trailing steps
  | raised {c1 c2 control : Point α} {steps : List (Step α)}
      (shape : segment.shape = .cubic c1 c2) (allowed : f.flags.convertToQ = true)
      (raises : asQuadratic? segment.start c1 c2 segment.stop f.error = some control)
      (form : QuadraticForm f s control segment.stop f.flags.curveSmoothShorthands steps) :
      CurveForm f s segment source trailing steps
  | quadratic {control : Point α} {steps : List (Step α)}
      (shape : segment.shape = .quadratic control)
      (form : QuadraticForm f s control segment.stop
        (f.flags.curveSmoothShorthands || source = .smoothQuadratic) steps) :
      CurveForm f s segment source trailing steps
  | straight {steps : List (Step α)} (allowed : f.flags.straightCurves = true)
      (straight : isStraight segment.points f.error = .ok true)
      (form : LineForm f s segment.stop .line trailing steps) :
      CurveForm f s segment source trailing steps
  | fitted {fit : ArcFit α} {steps : List (Step α)} (fits : f.fit [segment] = .ok (some fit))
      (part : fit.fullTurn = false)
      (form : FittedForm f s fit segment.start segment.stop steps) :
      CurveForm f s segment source trailing steps

theorem curveForms_sound {segment : Segment α} (trailing : Bool)
    (written : curveForms f s segment source = .ok candidates) :
    (segment.isCurve = true → candidates ≠ []) ∧
      ∀ steps ∈ candidates, CurveForm f s segment source trailing steps := by
  unfold curveForms at written
  split at written
  · rename_i c1 c2 shape
    obtain ⟨cubics, cubicsWritten, written⟩ := bind_ok.1 written
    obtain ⟨nonempty, cubicsSound⟩ := cubicForms_sound cubicsWritten
    dsimp only at written
    split at written
    · have written := pure_ok.1 written
      subst written
      exact ⟨fun _ => nonempty, fun steps member => .cubic shape (cubicsSound steps member)⟩
    · rename_i control raised
      obtain ⟨quadratics, quadraticsWritten, made⟩ := bind_ok.1 written
      have written := pure_ok.1 made
      subst written
      obtain ⟨allowed, raises⟩ : f.flags.convertToQ = true ∧
          asQuadratic? segment.start c1 c2 segment.stop f.error = some control := by
        simpa using raised
      obtain ⟨_, quadraticsSound⟩ := quadraticForms_sound quadraticsWritten
      constructor
      · intro _
        exact List.append_ne_nil_of_left_ne_nil nonempty _
      · intro steps member
        rcases List.mem_append.1 member with inCubics | inQuadratics
        · exact .cubic shape (cubicsSound steps inCubics)
        · exact .raised shape allowed raises (quadraticsSound steps inQuadratics)
  · rename_i control shape
    obtain ⟨quadratics, quadraticsWritten, made⟩ := bind_ok.1 written
    have written := pure_ok.1 made
    subst written
    obtain ⟨nonempty, quadraticsSound⟩ := quadraticForms_sound quadraticsWritten
    constructor
    · intro _
      unfold sourceFirst
      split
      · simpa using nonempty
      · exact nonempty
    · intro steps member
      exact .quadratic shape (quadraticsSound steps (mem_sourceFirst.1 member))
  · rename_i notCubic notQuadratic
    have written := pure_ok.1 written
    subst written
    constructor
    · intro curve
      cases shape : segment.shape with
      | cubic c1 c2 => exact absurd shape (notCubic c1 c2)
      | quadratic control => exact absurd shape (notQuadratic control)
      | _ => simp [Segment.isCurve, Segment.kind, shape] at curve
    · simp

def straightened (f : Setup α) (s : State α) (segment : Segment α) (trailing : Bool) :
    Except Fault (List (List (Step α))) := do
  if f.flags.straightCurves then
    if ← isStraight segment.points f.error then lineCandidates f s segment.stop .line trailing
    else return []
  else return []

def rounded (f : Setup α) (s : State α) (segment : Segment α) :
    Except Fault (List (List (Step α))) := do
  match ← f.fit [segment] with
  | none => return []
  | some fit =>
    if fit.fullTurn then return []
    else return [← fittedSteps f s fit segment.start segment.stop]

theorem curveCandidates_eq (f : Setup α) (s : State α) (segment : Segment α) (source : Kind)
    (trailing : Bool) :
    curveCandidates f s segment source trailing = (do
      let curves ← curveForms f s segment source
      let lines ← straightened f s segment trailing
      let arcs ← rounded f s segment
      return curves ++ lines ++ arcs) := by
  unfold curveCandidates straightened
  apply bind_congr
  intro curves
  have arcs (lines : List (List (Step α))) :
      (do
        match ← f.fit [segment] with
        | none => return curves ++ lines ++ []
        | some fit =>
          if fit.fullTurn then return curves ++ lines ++ []
          else return curves ++ lines ++ [← fittedSteps f s fit segment.start segment.stop]) =
      rounded f s segment >>= fun arcs => pure (curves ++ lines ++ arcs) := by
    unfold rounded
    rw [bind_assoc]
    apply bind_congr
    intro fits
    cases fits with
    | none => rfl
    | some fit => cases whole : fit.fullTurn <;> simp [whole]
  split
  · simp only [bind_assoc, pure_bind]
    apply bind_congr
    intro straight
    cases straight with
    | true => exact bind_congr arcs
    | false => exact arcs []
  · exact arcs []

theorem straightened_sound {segment : Segment α}
    (written : straightened f s segment trailing = .ok candidates) :
    ∀ steps ∈ candidates, CurveForm f s segment source trailing steps := by
  intro steps member
  unfold straightened at written
  split at written
  · rename_i allowed
    obtain ⟨straight, decided, written⟩ := bind_ok.1 written
    cases straight with
    | true => exact .straight allowed decided (lineCandidates_sound written steps member)
    | false =>
      cases written
      cases member
  · cases written
    cases member

theorem rounded_sound {segment : Segment α} (written : rounded f s segment = .ok candidates) :
    ∀ steps ∈ candidates, CurveForm f s segment source trailing steps := by
  intro steps member
  obtain ⟨fits, found, written⟩ := bind_ok.1 written
  cases fits with
  | none =>
    cases written
    cases member
  | some fit =>
    dsimp only at written
    split at written
    · cases written
      cases member
    · rename_i part
      obtain ⟨only, onlyWritten, made⟩ := bind_ok.1 written
      obtain rfl := List.mem_singleton.1 (pure_ok.1 made ▸ member)
      exact .fitted found (Bool.eq_false_iff.2 part) (fittedSteps_sound onlyWritten)

theorem curveCandidates_sound {segment : Segment α}
    (written : curveCandidates f s segment source trailing = .ok candidates) :
    (segment.isCurve = true → candidates ≠ []) ∧
      ∀ steps ∈ candidates, CurveForm f s segment source trailing steps := by
  rw [curveCandidates_eq] at written
  obtain ⟨curves, curvesWritten, written⟩ := bind_ok.1 written
  obtain ⟨lines, linesWritten, written⟩ := bind_ok.1 written
  obtain ⟨arcs, arcsWritten, made⟩ := bind_ok.1 written
  obtain ⟨nonempty, curvesSound⟩ := curveForms_sound trailing curvesWritten
  have written := pure_ok.1 made
  subst written
  constructor
  · intro curve
    simp [nonempty curve]
  · intro steps member
    simp only [List.mem_append] at member
    rcases member with (inCurves | inLines) | inArcs
    · exact curvesSound steps inCurves
    · exact straightened_sound linesWritten steps inLines
    · exact rounded_sound arcsWritten steps inArcs

def arcRadii (f : Setup α) (s : State α) (stop : Point α) (e : EllipticArc α) :
    Except Fault (α × α) := do
  if !(e.rx == 0 || e.ry == 0) && e.rx == e.ry && f.flags.smartArcRounding then
    let radius ← smartRadius f s e.rx stop e.large
    return (radius, radius)
  else return (e.rx, e.ry)

def flattened (f : Setup α) (s : State α) (segment : Segment α) (e : EllipticArc α)
    (trailing : Bool) : Except Fault (List (List (Step α))) := do
  if f.flags.straightCurves && e.rx == e.ry && !e.large then
    match ← sagitta e.rx (segment.stop - segment.start).length false with
    | some height =>
      if height < f.error then lineCandidates f s segment.stop .line trailing else return []
    | none => return []
  else return []

theorem arcCandidates_eq (f : Setup α) (s : State α) (segment : Segment α) (e : EllipticArc α)
    (trailing : Bool) :
    arcCandidates f s segment e trailing =
      if (e.rx == 0 || e.ry == 0) && f.flags.straightCurves then
        lineCandidates f s segment.stop .line trailing
      else do
        let radii ← arcRadii f s segment.stop e
        let arc ← f.place (.arc ⟨radii.1, radii.2, e.rotation, flag e.large, flag e.sweep⟩
          segment.stop) s.cursor false
        let lines ← flattened f s segment e trailing
        return [{ command := arc }] :: lines := by
  unfold arcCandidates arcRadii
  dsimp only
  split
  · rfl
  · have rest (rx ry : α) :
        (do
          let arc ← f.place (.arc ⟨rx, ry, e.rotation, flag e.large, flag e.sweep⟩ segment.stop)
            s.cursor false
          if f.flags.straightCurves && e.rx == e.ry && !e.large then
            match ← sagitta e.rx (segment.stop - segment.start).length false with
            | some height =>
              if height < f.error then
                let lines ← lineCandidates f s segment.stop .line trailing
                return [{ command := arc }] :: lines
              else return [[{ command := arc }]]
            | none => return [[{ command := arc }]]
          else return [[{ command := arc }]]) =
        (do
          let arc ← f.place (.arc ⟨rx, ry, e.rotation, flag e.large, flag e.sweep⟩ segment.stop)
            s.cursor false
          let lines ← flattened f s segment e trailing
          return [{ command := arc }] :: lines : Except Fault (List (List (Step α)))) := by
      apply bind_congr
      intro arc
      unfold flattened
      split
      · rw [bind_assoc]
        apply bind_congr
        intro measured
        cases measured with
        | none => rfl
        | some height =>
          dsimp only
          split <;> rfl
      · rfl
    split
    · simp only [bind_assoc, pure_bind]
      exact bind_congr fun radius => rest radius radius
    · exact rest e.rx e.ry

inductive ArcForm (f : Setup α) (s : State α) (segment : Segment α) (e : EllipticArc α)
    (trailing : Bool) : List (Step α) → Prop where
  | flat {steps : List (Step α)} (zero : (e.rx == 0 || e.ry == 0) = true)
      (allowed : f.flags.straightCurves = true)
      (form : LineForm f s segment.stop .line trailing steps) :
      ArcForm f s segment e trailing steps
  | arc {radii : α × α} {c : Command α} (chosen : arcRadii f s segment.stop e = .ok radii)
      (placed : f.place (.arc ⟨radii.1, radii.2, e.rotation, flag e.large, flag e.sweep⟩
        segment.stop) s.cursor false = .ok c) :
      ArcForm f s segment e trailing (Step.plain c)
  | shallow {height : α} {steps : List (Step α)} (allowed : f.flags.straightCurves = true)
      (circle : (e.rx == e.ry) = true) (small : e.large = false)
      (measured : sagitta e.rx (segment.stop - segment.start).length false = .ok (some height))
      (low : height < f.error) (form : LineForm f s segment.stop .line trailing steps) :
      ArcForm f s segment e trailing steps

theorem flattened_sound {segment : Segment α}
    (written : flattened f s segment e trailing = .ok candidates) :
    ∀ steps ∈ candidates, ArcForm f s segment e trailing steps := by
  intro steps member
  unfold flattened at written
  split at written
  · rename_i offered
    simp only [Bool.and_eq_true, Bool.not_eq_true'] at offered
    obtain ⟨⟨allowed, circle⟩, small⟩ := offered
    obtain ⟨measure, measured, written⟩ := bind_ok.1 written
    cases measure with
    | none =>
      cases written
      cases member
    | some height =>
      dsimp only at written
      split at written
      · rename_i low
        exact .shallow allowed circle small measured low (lineCandidates_sound written steps member)
      · cases written
        cases member
  · cases written
    cases member

theorem arcCandidates_sound {segment : Segment α}
    (written : arcCandidates f s segment e trailing = .ok candidates) :
    candidates ≠ [] ∧ ∀ steps ∈ candidates, ArcForm f s segment e trailing steps := by
  rw [arcCandidates_eq] at written
  split at written
  · rename_i offered
    rw [Bool.and_eq_true] at offered
    exact ⟨lineCandidates_nonempty written, fun steps member =>
      .flat offered.1 offered.2 (lineCandidates_sound written steps member)⟩
  · obtain ⟨radii, chosen, written⟩ := bind_ok.1 written
    obtain ⟨arc, placed, written⟩ := bind_ok.1 written
    obtain ⟨lines, linesWritten, made⟩ := bind_ok.1 written
    have written := pure_ok.1 made
    subst written
    refine ⟨List.cons_ne_nil _ _, ?_⟩
    intro steps member
    rcases List.mem_cons.1 member with isArc | inLines
    · exact isArc ▸ .arc chosen placed
    · exact flattened_sound linesWritten steps inLines

end Filter
end PathData
