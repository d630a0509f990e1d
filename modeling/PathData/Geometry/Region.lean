import PathData.Geometry.Point
import PathData.Number.Double

namespace PathData

-- A corner and the extents from it, which may be negative.
structure Rect (α : Type) where
  top : α
  left : α
  width : α
  height : α
  deriving DecidableEq, Repr, Inhabited

namespace Rect

variable {α : Type} [Scalar α]

def right (r : Rect α) : α := r.left + r.width

def bottom (r : Rect α) : α := r.top + r.height

end Rect

namespace Region

-- Opposite corners, the one with the smaller coordinates first.
structure Box where
  low : Point Int
  high : Point Int

def Box.of (a b : Point Int) : Box :=
  ⟨⟨min a.x b.x, min a.y b.y⟩, ⟨max a.x b.x, max a.y b.y⟩⟩

def Box.corners (b : Box) : List (Point Int) :=
  [b.low, ⟨b.high.x, b.low.y⟩, b.high, ⟨b.low.x, b.high.y⟩]

def Box.meets (a b : Box) : Bool :=
  a.low.x ≤ b.high.x && b.low.x ≤ a.high.x && a.low.y ≤ b.high.y && b.low.y ≤ a.high.y

-- Positive where `p` lies to the left of the line from `a` to `b`, zero on it.
def side (a b p : Point Int) : Int :=
  (b.x - a.x) * (p.y - a.y) - (p.x - a.x) * (b.y - a.y)

abbrev Edge := Point Int × Point Int

-- Two convex sets are apart exactly when an axis separates them: here those of the box and the
-- normal of the edge.
def touches (box : Box) (e : Edge) : Bool :=
  let sides := box.corners.map (side e.1 e.2)
  (Box.of e.1 e.2).meets box && !(sides.all (0 < ·)) && !(sides.all (· < 0))

def edges : List (Point Int) → List Edge
  | a :: b :: rest => (a, b) :: edges (b :: rest)
  | _ => []

def closing? (ring : List (Point Int)) : Option Edge :=
  match ring.getLast?, ring.head? with
  | some a, some b => if a = b then none else some (a, b)
  | _, _ => none

-- How often the edges turn around `p`: each edge that passes to the right of `p` counts, up for one
-- turn and down for one back.
def winding (es : List Edge) (p : Point Int) : Int :=
  (es.map fun (a, b) =>
    if a.y ≤ p.y && p.y < b.y && 0 < side a b p then 1
    else if b.y ≤ p.y && p.y < a.y && side a b p < 0 then -1
    else 0).foldl (· + ·) 0

def doubleArea (es : List Edge) : Int :=
  (es.map fun (a, b) => a.x * b.y - b.x * a.y).foldl (· + ·) 0

-- A ring without area counts as turning clockwise.
def direction (es : List Edge) : Int :=
  if 0 < doubleArea es then 1 else -1

-- The winding numbers on the two sides of an edge that a box with the corner `p` touches. A corner
-- on the edge is taken for one to the right of it, or above it if it is level.
def windingsBeside (es : List Edge) (e : Edge) (p : Point Int) : List Int :=
  let here := winding es p
  let (a, b) := e
  let isLeft :=
    if side a b p != 0 then 0 < side a b p
    else if a.y != b.y then b.y < a.y
    else a.x < b.x
  [here, if isLeft then here - 1 else here + 1]

def fills (box : Box) (ring : List (Point Int)) : Bool :=
  let closing := closing? ring
  let es := edges ring ++ closing.toList
  let windings :=
    match closing with
    | some e =>
      if touches box e then
        windingsBeside es e ((box.corners.find? fun p => side e.1 e.2 p != 0).getD box.low)
      else [winding es box.low]
    | none => [winding es box.low]
  windings.any fun w => 1 ≤ direction es * w

def distinct (ring : List (Point Int)) : Nat :=
  ring.eraseDups.length

def reaches (box : Box) (polyline : List (Point Int)) : Bool :=
  (edges polyline).any (touches box) || (3 ≤ distinct polyline && fills box polyline)

-- The same numbers on the coarsest grid that holds all of them, if all are finite.
def onGrid? (xs : List Float) : Option (List Int) := do
  let parts ← xs.mapM fun x =>
    match Binary.ofFloat x with
    | .finite negative mantissa exponent =>
      some ((if negative then -(mantissa : Int) else mantissa), exponent)
    | _ => none
  let least := (parts.filter fun part => part.1 != 0).foldl (fun e part => min e part.2) 1024
  return parts.map fun (mantissa, exponent) =>
    if mantissa == 0 then 0 else mantissa * Nat.pow 2 (exponent - least).toNat

def pairUp : List Int → List (Point Int)
  | x :: y :: rest => ⟨x, y⟩ :: pairUp rest
  | _ => []

def reachesRect (r : Rect Float) (polyline : List (Point Float)) : Bool :=
  let numbers := [r.left, r.top, r.right, r.bottom] ++ polyline.flatMap fun p => [p.x, p.y]
  match (onGrid? numbers).map pairUp with
  | some (a :: b :: points) => reaches (Box.of a b) points
  | _ => false

end Region
end PathData
