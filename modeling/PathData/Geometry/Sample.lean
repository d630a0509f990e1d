import PathData.Geometry.Ellipse

namespace PathData
namespace Sample

-- Evenly spaced parameters from 0 to 1. A single one is 0.
def parameters (count : Nat) : List Float :=
  let step := 1.0 / Float.ofNat (count - 1)
  (List.range count).map fun i =>
    if i = 0 then 0.0 else if i + 1 = count then 1.0 else Float.ofNat i * step

def cubicAxis (p0 p1 p2 p3 t : Float) : Float :=
  p0 + t * (3.0 * (p1 - p0) + t * (3.0 * (p0 + p2) - 6.0 * p1 + t * (-p0 + 3.0 * (p1 - p2) + p3)))

def quadraticAxis (p0 p1 p2 t : Float) : Float :=
  (1.0 - t) * (1.0 - t) * p0 + 2.0 * (1.0 - t) * t * p1 + t * t * p2

-- The number of samples that fitting and flattening take of a curve.
def perSegment : Nat := 17

end Sample

-- Bézier curves, and arcs that are drawn as such.
def Segment.isBent {α : Type} [Scalar α] (s : Segment α) : Bool :=
  match s.shape with
  | .cubic .. | .quadratic _ => true
  | .arc _ => !s.isDegenerateArc
  | .move | .line | .close => false

def Segment.point (s : Segment Float) : Float → Point Float :=
  let a := s.start
  let d := s.stop
  match s.shape with
  | .cubic b c => fun t =>
    ⟨Sample.cubicAxis a.x b.x c.x d.x t, Sample.cubicAxis a.y b.y c.y d.y t⟩
  | .quadratic b => fun t =>
    ⟨Sample.quadraticAxis a.x b.x d.x t, Sample.quadraticAxis a.y b.y d.y t⟩
  | .arc e => (CenterArc.of e a d).point
  | .move | .line | .close => fun t => a + (d - a).scale t

-- Lines, closes, moves and degenerate arcs have their ends as samples, whatever the count.
def Segment.sampleWith (point : Float → Point Float) (s : Segment Float) (count : Nat) :
    List (Point Float) :=
  if s.isBent then (Sample.parameters count).map point else [s.start, s.stop]

def Segment.sample (s : Segment Float) (count : Nat) : List (Point Float) :=
  s.sampleWith s.point count

end PathData
