import PathData.Command.Basic

namespace PathData

open scoped PathData.Scalar

-- An arc of an ellipse, as the end-point form gives it. Radii are not negative.
structure EllipticArc (α : Type) where
  rx : α
  ry : α
  rotation : α
  large : Bool
  sweep : Bool
  deriving DecidableEq, Repr, Inhabited

inductive Shape (α : Type) where
  | move
  | line
  | cubic (c1 c2 : Point α)
  | quadratic (c : Point α)
  | arc (ellipse : EllipticArc α)
  | close
  deriving DecidableEq, Repr, Inhabited

structure Segment (α : Type) where
  start : Point α
  shape : Shape α
  stop : Point α
  deriving DecidableEq, Repr, Inhabited

namespace Segment

variable {α : Type}

def kind (s : Segment α) : Kind :=
  match s.shape with
  | .move => .move
  | .line => .line
  | .cubic .. => .cubic
  | .quadratic _ => .quadratic
  | .arc _ => .arc
  | .close => .close

def points (s : Segment α) : List (Point α) :=
  match s.shape with
  | .cubic c1 c2 => [s.start, c1, c2, s.stop]
  | .quadratic c => [s.start, c, s.stop]
  | _ => [s.start, s.stop]

def isMove (s : Segment α) : Bool := s.kind = .move

def isCurve (s : Segment α) : Bool := s.kind = .cubic || s.kind = .quadratic

variable [Scalar α]

def isDegenerateArc (s : Segment α) : Bool :=
  match s.shape with
  | .arc e => e.rx == 0 || e.ry == 0 || s.start == s.stop
  | _ => false

end Segment

-- The last control point of a curve and the degree of the curve. A curve written without its first
-- control point takes the reflection of this one, if the degrees agree, and otherwise the pen.
structure Handle (α : Type) where
  control : Option (Point α) := none
  degree : Nat := 0
  deriving DecidableEq, Repr, Inhabited

namespace Handle

variable {α : Type}

def cubic (c : Point α) : Handle α := ⟨some c, 3⟩

def quadratic (c : Point α) : Handle α := ⟨some c, 2⟩

def implied [Scalar α] (h : Handle α) (degree : Nat) (pen : Point α) : Point α :=
  if h.degree = degree then
    match h.control with
    | some c => c.reflect pen
    | none => pen
  else pen

end Handle

structure Pen (α : Type) where
  position : Point α
  subpathStart : Point α
  handle : Handle α := {}
  deriving DecidableEq, Repr, Inhabited

namespace Pen

variable {α : Type} [Scalar α]

def initial : Pen α := { position := .origin, subpathStart := .origin }

def shape (pen : Pen α) : Body α → Shape α × Handle α
  | .move _ => (.move, {})
  | .line _ | .horizontal _ | .vertical _ => (.line, {})
  | .cubic c1 c2 _ => (.cubic c1 c2, .cubic c2)
  | .smoothCubic c2 _ => (.cubic (pen.handle.implied 3 pen.position) c2, .cubic c2)
  | .quadratic c _ => (.quadratic c, .quadratic c)
  | .smoothQuadratic _ =>
    let c := pen.handle.implied 2 pen.position
    (.quadratic c, .quadratic c)
  | .arc s _ =>
    (.arc ⟨Scalar.abs s.rx, Scalar.abs s.ry, s.rotation, !(s.large == 0), !(s.sweep == 0)⟩, {})
  | .close => (.close, {})

def draw (pen : Pen α) (c : Command α) : Segment α × Pen α :=
  let stop := c.endPoint pen.position pen.subpathStart
  let (shape, handle) := pen.shape (c.toAbsolute pen.position).body
  ({ start := pen.position, shape, stop },
    { position := stop, subpathStart := if c.isMove then stop else pen.subpathStart, handle })

def drawAll (pen : Pen α) : List (Command α) → List (Segment α)
  | [] => []
  | c :: rest =>
    let (segment, pen) := pen.draw c
    segment :: pen.drawAll rest

end Pen

def longhand {α : Type} [Scalar α] (cs : List (Command α)) : List (Segment α) :=
  Pen.initial.drawAll cs

end PathData
