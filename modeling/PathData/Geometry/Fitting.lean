import PathData.Geometry.ArcFit
import PathData.Geometry.Circle
import PathData.Geometry.Polyline
import PathData.Geometry.Sample
import PathData.Geometry.Sweep

namespace PathData
namespace Fitting

-- A swept angle this close to a full turn, in radians, closes the circle.
def fullTurnSlack : Float := 1e-3

def isFullTurn (angle : Float) : Bool :=
  (angle.abs - 2.0 * Angle.pi).abs ≤ fullTurnSlack

def distance (p q : Point Float) : Float := (p - q).length

def followCircle (points : List (Point Float)) (center : Point Float) (radius allowed : Float) :
    Bool :=
  !points.any fun p => decide (allowed < (distance p center - radius).abs)

-- Whether the arc that a renderer draws between the ends has its center where the fit has it, and
-- passes by the points as well.
def isDrawnAsFitted (points : List (Point Float)) (start stop : Point Float) (fit : ArcFit Float)
    (allowed : Float) : Bool :=
  let arc := CenterArc.of ⟨fit.radius, fit.radius, 0.0, fit.large, fit.sweep⟩ start stop
  if allowed < distance arc.center fit.center then false
  else points.all fun p => decide ((distance p arc.center - arc.rx).abs ≤ allowed)

-- The radius is rounded before anything is checked, so that the checks hold for what is written.
def fitPoints (fitting : ArcFitting Float) (error : Float) (round : Float → Except Fault Float)
    (points : List (Point Float)) : Except Fault (Option (ArcFit Float)) := do
  let some (center, radius) ← Circle.fit points | return none
  let radius ← round radius
  if radius ≤ 0.0 then return none
  let byUnit := fitting.threshold * error
  let byRadius := fitting.tolerance * radius / 100.0
  let allowed := if byRadius < byUnit then byRadius else byUnit
  if !followCircle points center radius allowed then return none
  let some angle := Sweep.angle? points center | return none
  if 2.0 * Angle.pi + fullTurnSlack < angle.abs then return none
  let fit : ArcFit Float :=
    { radius, large := Angle.pi < angle.abs, sweep := 0.0 < angle, center, angle
      fullTurn := isFullTurn angle }
  if fit.fullTurn then return some fit
  match points.head?, points.getLast? with
  | some start, some stop =>
    if start == stop || !isDrawnAsFitted points start stop fit allowed then return none
    return some fit
  | _, _ => return none

def fitSegments : ArcFitter Float := fun fitting error round segments =>
  fitPoints fitting error round (Polyline.join (segments.map fun s => s.sample Sample.perSegment))

end Fitting
end PathData
