import PathData.Geometry.Angle
import PathData.Geometry.Segment
import PathData.Number.Double

namespace PathData

-- Angles are in degrees, but for `phi`: `theta` is where the arc starts on the ellipse and `delta`
-- how far it runs.
structure CenterArc where
  start : Point Float
  stop : Point Float
  rx : Float
  ry : Float
  phi : Float
  center : Point Float
  theta : Float
  delta : Float

namespace CenterArc

def clamp (x : Float) : Float :=
  if x < -1.0 then -1.0 else if 1.0 < x then 1.0 else x

def rotate (p : Point Float) (angle : Float) : Point Float :=
  ⟨p.x * angle.cos - p.y * angle.sin, p.x * angle.sin + p.y * angle.cos⟩

-- The unsigned angle that a cosine stands for, with the sign of `turn`. Without a turn the angle is
-- none or half a circle.
def signedAngle (cosine turn : Float) : Float :=
  if 0.0 < turn then Angle.degrees cosine.acos
  else if turn < 0.0 then -(Angle.degrees cosine.acos)
  else if 0.0 < cosine then 0.0 else 180.0

-- The direction of sweep decides on which side the arc runs, and a large arc the long way.
def turned (e : EllipticArc Float) (delta : Float) : Float :=
  if !e.sweep && 0.0 ≤ delta then delta - 360.0
  else if e.large && delta ≤ 0.0 then delta + 360.0
  else delta

-- Radii that are too small for the chord are scaled up to reach it.
def of (e : EllipticArc Float) (start stop : Point Float) : CenterArc :=
  let phi := Angle.radians e.rotation
  let half := rotate (start - stop) (-phi)
  let x := half.x / 2.0
  let y := half.y / 2.0
  let check := x * x / (e.rx * e.rx) + y * y / (e.ry * e.ry)
  let factor := if 1.0 < check then check.sqrt else 1.0
  let rx := e.rx * factor
  let ry := e.ry * factor
  let spread := rx * rx * (y * y) + ry * ry * (x * x)
  let radicand := (rx * rx * (ry * ry) - spread) / spread
  let radical := if radicand.abs ≤ 1e-8 then 0.0 else radicand.sqrt
  let radical := if e.large == e.sweep then -radical else radical
  let cx := radical * (rx * y / ry)
  let cy := -(radical * (ry * x / rx))
  let middle : Point Float := ⟨(start.x + stop.x) / 2.0, (start.y + stop.y) / 2.0⟩
  let ux := clamp ((x - cx) / rx)
  let uy := clamp ((y - cy) / ry)
  let vx := clamp ((-x - cx) / rx)
  let vy := clamp ((-y - cy) / ry)
  { start, stop, rx, ry, phi
    center := rotate ⟨cx, cy⟩ phi + middle
    theta := signedAngle ux uy
    delta := turned e (signedAngle (clamp (ux * vx + uy * vy)) (ux * vy - uy * vx)) }

-- The ends are taken as given.
def point (a : CenterArc) (t : Float) : Point Float :=
  if t == 0.0 then a.start
  else if t == 1.0 then a.stop
  else
    let angle := Angle.radians (a.theta + t * a.delta)
    rotate ⟨a.rx * angle.cos, a.ry * angle.sin⟩ a.phi + a.center

end CenterArc
end PathData
