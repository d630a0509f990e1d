import PathData.Geometry.Point
import PathData.Number.Double

namespace PathData
namespace Circle

def sum (xs : List Float) : Float :=
  xs.foldl (· + ·) 0.0

def dot (xs ys : List Float) : Float :=
  sum (List.zipWith (· * ·) xs ys)

-- A column of the matrix together with the column of coefficients that it was made with.
structure Column where
  entries : List Float
  weights : List Float

def Column.combine (a b : Column) (p q : Float) : Column where
  entries := List.zipWith (fun x y => p * x + q * y) a.entries b.entries
  weights := List.zipWith (fun x y => p * x + q * y) a.weights b.weights

def Column.square (a : Column) : Float := dot a.entries a.entries

def orthogonalize (a b : Column) : Column × Column :=
  let mixed := dot a.entries b.entries
  if mixed == 0.0 then (a, b)
  else
    let zeta := (b.square - a.square) / (2.0 * mixed)
    let tangent := (if zeta < 0.0 then -1.0 else 1.0) / (zeta.abs + (1.0 + zeta * zeta).sqrt)
    let cosine := 1.0 / (1.0 + tangent * tangent).sqrt
    let sine := cosine * tangent
    (a.combine b cosine (-sine), a.combine b sine cosine)

def sweep (columns : Column × Column × Column) : Column × Column × Column :=
  let (a, b, c) := columns
  let (a, b) := orthogonalize a b
  let (a, c) := orthogonalize a c
  let (b, c) := orthogonalize b c
  (a, b, c)

-- Each sweep squares what is left of the angles' defect, so a fixed number is plenty.
def sweeps : Nat → Column × Column × Column → Column × Column × Column
  | 0, columns => columns
  | n + 1, columns => sweeps n (sweep columns)

def epsilon : Float := 2.220446049250313e-16

def greatest (xs : List Float) : Float :=
  xs.foldl (fun a b => if a < b then b else a) 0.0

-- The coefficients for which the columns come closest to `target`, unless the columns depend on one
-- another.
def solve? (columns : List (List Float)) (target : List Float) : Option (List Float) :=
  match columns with
  | [a, b, c] =>
    let (a, b, c) := sweeps 24 (⟨a, [1.0, 0.0, 0.0]⟩, ⟨b, [0.0, 1.0, 0.0]⟩, ⟨c, [0.0, 0.0, 1.0]⟩)
    let turned := [a, b, c]
    let values := turned.map fun column => column.square.sqrt
    let least := epsilon * Float.ofNat (max target.length 3) * greatest values
    if values.all fun value => least < value then
      let parts := turned.map fun column =>
        let share := dot column.entries target / column.square
        column.weights.map (share * ·)
      some (parts.foldl (List.zipWith (· + ·)) [0.0, 0.0, 0.0])
    else none
  | _ => none

-- Radii from here on belong to lines.
def maxRadius : Float := 1e15

-- The center and the radius. With the centroid as origin, x² + y² = 2·cx·x + 2·cy·y + c is linear
-- in the center and in c = r² - cx² - cy². Coordinates that are not finite have no singular values.
def fit (points : List (Point Float)) : Except Fault (Option (Point Float × Float)) := do
  if points.length < 3 then return none
  let count := Float.ofNat points.length
  let ox := sum (points.map Point.x) / count
  let oy := sum (points.map Point.y) / count
  let xs := points.map fun p => p.x - ox
  let ys := points.map fun p => p.y - oy
  if !(xs ++ ys).all fun v => (2.0 * v).isFinite then throw .noConvergence
  let target := List.zipWith (fun x y => x * x + y * y) xs ys
  match solve? [xs.map (2.0 * ·), ys.map (2.0 * ·), points.map fun _ => 1.0] target with
  | some [cx, cy, c] =>
    let square := c + cx * cx + cy * cy
    if !square.isFinite || square ≤ 0.0 then return none
    let radius := square.sqrt
    if maxRadius ≤ radius then return none
    return some (⟨cx + ox, cy + oy⟩, radius)
  | _ => return none

end Circle
end PathData
