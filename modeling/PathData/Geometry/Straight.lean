import PathData.Geometry.Point

namespace PathData

open scoped PathData.Scalar

variable {α : Type} [Scalar α]

-- Whether a control point lies on the chord, whose squared length is known, within `error`, and
-- projects inside it. One that projects outside makes the curve overshoot its ends.
def liesAlong (chord : Point α) (length error : α) (offset : Point α) : Bool :=
  if error < Scalar.abs (chord.cross offset) / length then false
  else
    let along := offset.dot chord / length
    !(decide (along < -error) || decide (length + error < along))

-- The points run from one end of a curve through its control points to the other. A curve without
-- a chord is never straight.
def isStraight (points : List (Point α)) (error : α) : Except Fault Bool :=
  match points, points.getLast? with
  | first :: rest, some last => do
    let chord := last - first
    let square := chord.dot chord
    if square == 0 then return false
    let length ← Scalar.sqrt square
    return rest.dropLast.all fun p => liesAlong chord length error (p - first)
  | _, _ => return false

def sagitta (radius chord : α) (large : Bool) : Except Fault (Option α) := do
  if 2 * radius < chord then return none
  let offset ← Scalar.sqrt (radius * radius - chord * chord / 4)
  return some (if large then radius + offset else radius - offset)

end PathData
