import PathData.Geometry.Angle
import PathData.Geometry.Point
import PathData.Number.Double

namespace PathData
namespace Sweep

-- Steps up to this far against the direction are noise.
def slack : Float := 1e-12

-- A step between two angles, taken the short way. Half a turn forward stays half a turn forward.
def wrap (step : Float) : Float :=
  if step.abs < Angle.pi then step
  else
    let shifted := step + Angle.pi
    let rest := shifted - 2.0 * Angle.pi * (shifted / (2.0 * Angle.pi)).floor
    let short := rest - Angle.pi
    if short == -Angle.pi && 0.0 < step then Angle.pi else short

def corrections (total : Float) : List Float → List Float
  | a :: b :: rest =>
    let total := total + (wrap (b - a) - (b - a))
    total :: corrections total (b :: rest)
  | _ => []

def unwrap (angles : List Float) : List Float :=
  match angles with
  | [] => []
  | a :: rest => a :: List.zipWith (· + ·) rest (corrections 0.0 angles)

def steps : List Float → List Float
  | a :: b :: rest => (b - a) :: steps (b :: rest)
  | _ => []

def angle? (points : List (Point Float)) (center : Point Float) : Option Float :=
  let angles := unwrap (points.map fun p => Float.atan2 (p.y - center.y) (p.x - center.x))
  let forward := (steps angles).all fun step => -slack ≤ step
  let backward := (steps angles).all fun step => step ≤ slack
  if forward || backward then
    match angles.head?, angles.getLast? with
    | some first, some last => some (last - first)
    | _, _ => none
  else none

end Sweep
end PathData
