import PathData.Config.Style
import PathData.Filter.Radius
import PathData.Filter.State
import PathData.Geometry.ArcFit
import PathData.Geometry.Straight

namespace PathData
namespace Filter

open scoped PathData.Scalar

structure Setup (α : Type) where
  options : Options α
  style : Style
  error : α
  fitter : ArcFitter α

namespace Setup

variable {α : Type}

def flags (f : Setup α) : Flags := f.options.flags

-- Removing a vertex would move the markers.
def removalAllowed (f : Setup α) : Bool :=
  f.flags.removeUseless && !f.style.hasMarker && !f.style.hasMarkerMid

-- A segment without length still paints a dot under a round or square cap.
def zeroLengthRemovalAllowed (f : Setup α) : Bool :=
  f.removalAllowed && !(f.style.maybeHasStroke && f.style.maybeHasLinecap)

variable [Scalar α]

-- A rounded command for absolute coordinates, written as offsets from `start` unless the absolute
-- form is asked for.
def place (f : Setup α) (body : Body α) (start : Point α) (absolute : Bool) :
    Except Fault (Command α) :=
  let c : Command α := { body }
  f.options.roundCommand f.error
    (if absolute || f.flags.forceAbsolutePath then c else c.toRelative start)

def fit (f : Setup α) (segments : List (Segment α)) : Except Fault (Option (ArcFit α)) :=
  match f.options.makeArcs with
  | none => return none
  | some fitting => f.fitter fitting f.error (f.options.round f.error) segments

end Setup

variable {α : Type} [Scalar α]

-- A line that keeps one coordinate can be written with the other one alone, when the flag is set or
-- when it came that way.
def lineStep? (f : Setup α) (s : State α) (stop : Point α) (own : Kind) (kind : Kind) :
    Except Fault (Option (List (Step α))) := do
  let shorthand := own = kind || f.flags.lineShorthands
  match kind with
  | .horizontal =>
    if !shorthand || decide (f.error ≤ Scalar.abs (stop.y - s.cursor.y)) then return none
    return some [{ command := ← f.place (.horizontal stop.x) s.cursor false }]
  | .vertical =>
    if !shorthand || decide (f.error ≤ Scalar.abs (stop.x - s.cursor.x)) then return none
    return some [{ command := ← f.place (.vertical stop.y) s.cursor false }]
  | _ => return some [{ command := ← f.place (.line stop) s.cursor false }]

def lineKinds (own : Kind) : List Kind :=
  own :: [Kind.line, .horizontal, .vertical].filter (· ≠ own)

def lineCandidates (f : Setup α) (s : State α) (stop : Point α) (own : Kind) (trailing : Bool) :
    Except Fault (List (List (Step α))) := do
  let lines ← (lineKinds own).mapM (lineStep? f s stop own)
  let closing := f.flags.convertToZ && f.style.isSafeToUseZ && trailing &&
    stop.near s.subpathStart f.error
  return lines.filterMap id ++ if closing then [[{ command := { body := .close } }]] else []

-- The control point that a curve without its first one would get, if it is near `control`.
def reflected? (f : Setup α) (s : State α) (control : Point α) (degree : Nat) : Option (Point α) :=
  let implied := s.handle.implied degree s.cursor
  if implied.near control f.error then some implied else none

-- The last control point of a command as it will be rendered from `start`.
def renderedControl (c : Command α) (start : Point α) : Option (Point α) :=
  match (c.toAbsolute start).body with
  | .cubic _ c2 _ | .smoothCubic c2 _ => some c2
  | .quadratic control _ => some control
  | _ => none

def sourceFirst {β : Type} (shorthand : Bool) (forms : List β) : List β :=
  if shorthand then forms.reverse else forms

def cubicForms (f : Setup α) (s : State α) (c1 c2 stop : Point α) (source : Kind) :
    Except Fault (List (List (Step α))) := do
  let full ← f.place (.cubic c1 c2 stop) s.cursor false
  let full := [{ command := full, handle := ⟨renderedControl full s.cursor, 3⟩ }]
  if (f.flags.curveSmoothShorthands || source = .smoothCubic) && (reflected? f s c1 3).isSome then
    let smooth ← f.place (.smoothCubic c2 stop) s.cursor false
    let smooth := [{ command := smooth, handle := ⟨renderedControl smooth s.cursor, 3⟩ }]
    return sourceFirst (source = .smoothCubic) [full, smooth]
  else return [full]

def quadraticForms (f : Setup α) (s : State α) (control stop : Point α) (shorthand : Bool) :
    Except Fault (List (List (Step α))) := do
  let full ← f.place (.quadratic control stop) s.cursor false
  let full := [{ command := full, handle := ⟨renderedControl full s.cursor, 2⟩ }]
  match if shorthand then reflected? f s control 2 else none with
  | none => return [full]
  | some implied =>
    let smooth ← f.place (.smoothQuadratic stop) s.cursor false
    return [full, [{ command := smooth, handle := .quadratic implied }]]

-- The control point of the quadratic that a cubic was raised from: both ends of the cubic have to
-- point at the same place, within twice the error.
def asQuadratic? (p0 p1 p2 p3 : Point α) (error : α) : Option (Point α) :=
  let fromStart : Point α := ⟨(3 * p1.x - p0.x) / 2, (3 * p1.y - p0.y) / 2⟩
  let fromStop : Point α := ⟨(3 * p2.x - p3.x) / 2, (3 * p2.y - p3.y) / 2⟩
  if fromStart.near fromStop (2 * error) then
    some ⟨(fromStart.x + fromStop.x) / 2, (fromStart.y + fromStop.y) / 2⟩
  else none

-- The radius to write for an arc to `stop`, measured on the chord that a later run will see.
def smartRadius (f : Setup α) (s : State α) (radius : α) (stop : Point α) (large : Bool) :
    Except Fault α := do
  let line ← f.place (.line stop) s.cursor false
  let chord := (line.endPoint s.cursor s.subpathStart - s.cursor).length
  if f.options.precision ≤ 0 then return radius
  if (← sagitta radius chord large).isNone then return radius
  let search : Radius.Search α :=
    { precision := f.options.precision.toNat, error := f.error
      height := fun r => sagitta r chord large }
  match ← Radius.shortest search radius with
  | some r => return r
  | none =>
    let rounded ← f.options.round f.error radius
    return (← Radius.shortest search rounded).getD rounded

def flag (b : Bool) : α := if b then 1 else 0

def circular (radius : α) (large sweep : Bool) (stop : Point α) : Body α :=
  .arc ⟨radius, radius, 0, flag large, flag sweep⟩ stop

-- A fitted arc. A full turn is split at the point opposite to the start.
def fittedSteps (f : Setup α) (s : State α) (fit : ArcFit α) (trueStart stop : Point α) :
    Except Fault (List (Step α)) := do
  if fit.fullTurn then
    let middle := trueStart.reflect fit.center
    let first ← f.place (circular fit.radius false fit.sweep middle) s.cursor false
    let rendered := first.endPoint s.cursor s.subpathStart
    let second ← f.place (circular fit.radius false fit.sweep stop) rendered false
    return [{ command := first }, { command := second }]
  let radius ←
    if f.flags.smartArcRounding then smartRadius f s fit.radius stop fit.large else pure fit.radius
  return [{ command := ← f.place (circular radius fit.large fit.sweep stop) s.cursor false }]

def curveForms (f : Setup α) (s : State α) (segment : Segment α) (source : Kind) :
    Except Fault (List (List (Step α))) := do
  match segment.shape with
  | .cubic c1 c2 =>
    let cubics ← cubicForms f s c1 c2 segment.stop source
    let raised :=
      if f.flags.convertToQ then asQuadratic? segment.start c1 c2 segment.stop f.error else none
    match raised with
    | none => return cubics
    | some control =>
      return cubics ++ (← quadraticForms f s control segment.stop f.flags.curveSmoothShorthands)
  | .quadratic control =>
    let shorthand := f.flags.curveSmoothShorthands || source = .smoothQuadratic
    let forms ← quadraticForms f s control segment.stop shorthand
    return sourceFirst (source = .smoothQuadratic) forms
  | _ => return []

def curveCandidates (f : Setup α) (s : State α) (segment : Segment α) (source : Kind)
    (trailing : Bool) : Except Fault (List (List (Step α))) := do
  let curves ← curveForms f s segment source
  let lines ←
    if f.flags.straightCurves then
      if ← isStraight segment.points f.error then
        lineCandidates f s segment.stop .line trailing
      else pure []
    else pure []
  let arcs ←
    match ← f.fit [segment] with
    | none => pure []
    | some fit =>
      if fit.fullTurn then pure [] else pure [← fittedSteps f s fit segment.start segment.stop]
  return curves ++ lines ++ arcs

-- An arc with a zero radius is rendered as a line.
def arcCandidates (f : Setup α) (s : State α) (segment : Segment α) (e : EllipticArc α)
    (trailing : Bool) : Except Fault (List (List (Step α))) := do
  let stop := segment.stop
  let flat := e.rx == 0 || e.ry == 0
  let circle := e.rx == e.ry
  if flat && f.flags.straightCurves then
    lineCandidates f s stop .line trailing
  else
    let (rx, ry) ←
      if !flat && circle && f.flags.smartArcRounding then
        let radius ← smartRadius f s e.rx stop e.large
        pure (radius, radius)
      else pure (e.rx, e.ry)
    let arc ← f.place (.arc ⟨rx, ry, e.rotation, flag e.large, flag e.sweep⟩ stop) s.cursor false
    let lines ←
      if f.flags.straightCurves && circle && !e.large then
        match ← sagitta e.rx (stop - segment.start).length false with
        | some height =>
          if height < f.error then lineCandidates f s stop .line trailing else pure []
        | none => pure []
      else pure []
    return [{ command := arc }] :: lines

end Filter
end PathData
