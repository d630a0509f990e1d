import PathData.Command.Kind
import PathData.Geometry.Point

namespace PathData

-- The flags are numbers because they are read as such; any number but zero means yes.
structure ArcShape (α : Type) where
  rx : α
  ry : α
  rotation : α
  large : α
  sweep : α
  deriving DecidableEq, Repr, Inhabited

inductive Body (α : Type) where
  | move (stop : Point α)
  | line (stop : Point α)
  | horizontal (x : α)
  | vertical (y : α)
  | cubic (c1 c2 stop : Point α)
  | smoothCubic (c2 stop : Point α)
  | quadratic (c stop : Point α)
  | smoothQuadratic (stop : Point α)
  | arc (shape : ArcShape α) (stop : Point α)
  | close
  deriving DecidableEq, Repr, Inhabited

structure Command (α : Type) where
  body : Body α
  relative : Bool := false
  implicit : Bool := false
  deriving DecidableEq, Repr, Inhabited

namespace Body

variable {α : Type}

def kind : Body α → Kind
  | .move _ => .move
  | .line _ => .line
  | .horizontal _ => .horizontal
  | .vertical _ => .vertical
  | .cubic .. => .cubic
  | .smoothCubic .. => .smoothCubic
  | .quadratic .. => .quadratic
  | .smoothQuadratic _ => .smoothQuadratic
  | .arc .. => .arc
  | .close => .close

def args : Body α → List α
  | .move p | .line p | .smoothQuadratic p => [p.x, p.y]
  | .horizontal x => [x]
  | .vertical y => [y]
  | .cubic c1 c2 p => [c1.x, c1.y, c2.x, c2.y, p.x, p.y]
  | .smoothCubic c p | .quadratic c p => [c.x, c.y, p.x, p.y]
  | .arc s p => [s.rx, s.ry, s.rotation, s.large, s.sweep, p.x, p.y]
  | .close => []

def ofArgs? : Kind → List α → Option (Body α)
  | .move, [x, y] => some (.move ⟨x, y⟩)
  | .line, [x, y] => some (.line ⟨x, y⟩)
  | .horizontal, [x] => some (.horizontal x)
  | .vertical, [y] => some (.vertical y)
  | .cubic, [a, b, c, d, x, y] => some (.cubic ⟨a, b⟩ ⟨c, d⟩ ⟨x, y⟩)
  | .smoothCubic, [a, b, x, y] => some (.smoothCubic ⟨a, b⟩ ⟨x, y⟩)
  | .quadratic, [a, b, x, y] => some (.quadratic ⟨a, b⟩ ⟨x, y⟩)
  | .smoothQuadratic, [x, y] => some (.smoothQuadratic ⟨x, y⟩)
  | .arc, [rx, ry, rotation, large, sweep, x, y] =>
    some (.arc ⟨rx, ry, rotation, large, sweep⟩ ⟨x, y⟩)
  | .close, [] => some .close
  | _, _ => none

-- Rounds, in writing order, every argument that is not a flag. The first fault wins.
def mapNumbers (f : α → Except Fault α) : Body α → Except Fault (Body α)
  | .move p => return .move (← point p)
  | .line p => return .line (← point p)
  | .horizontal x => return .horizontal (← f x)
  | .vertical y => return .vertical (← f y)
  | .cubic c1 c2 p => return .cubic (← point c1) (← point c2) (← point p)
  | .smoothCubic c p => return .smoothCubic (← point c) (← point p)
  | .quadratic c p => return .quadratic (← point c) (← point p)
  | .smoothQuadratic p => return .smoothQuadratic (← point p)
  | .arc s p => do
    let rx ← f s.rx
    let ry ← f s.ry
    let rotation ← f s.rotation
    return .arc { s with rx, ry, rotation } (← point p)
  | .close => return .close
where
  point (p : Point α) : Except Fault (Point α) := do
    let x ← f p.x
    let y ← f p.y
    return ⟨x, y⟩

variable [Scalar α]

-- Moves every coordinate. Radii, rotation and flags of an arc stay.
def shift (d : Point α) : Body α → Body α
  | .move p => .move (p + d)
  | .line p => .line (p + d)
  | .horizontal x => .horizontal (x + d.x)
  | .vertical y => .vertical (y + d.y)
  | .cubic c1 c2 p => .cubic (c1 + d) (c2 + d) (p + d)
  | .smoothCubic c p => .smoothCubic (c + d) (p + d)
  | .quadratic c p => .quadratic (c + d) (p + d)
  | .smoothQuadratic p => .smoothQuadratic (p + d)
  | .arc s p => .arc s (p + d)
  | .close => .close

-- Where the pen rests afterwards, for coordinates that count from `base`.
def endPoint (base start subpathStart : Point α) : Body α → Point α
  | .close => subpathStart
  | .horizontal x => ⟨base.x + x, start.y⟩
  | .vertical y => ⟨start.x, base.y + y⟩
  | .move p | .line p | .smoothQuadratic p | .cubic _ _ p | .smoothCubic _ p | .quadratic _ p
  | .arc _ p => base + p

end Body

namespace Command

variable {α : Type}

structure ArityError where
  kind : Kind
  given : Nat
  deriving DecidableEq, Repr, Inhabited

def ArityError.message (e : ArityError) : String :=
  e.kind.name ++ " takes " ++ toString e.kind.arity ++ " arguments, got " ++ toString e.given

def ofArgs (kind : Kind) (args : List α) (relative implicit : Bool) :
    Except ArityError (Command α) :=
  match Body.ofArgs? kind args with
  | some body => .ok { body, relative, implicit }
  | none => .error ⟨kind, args.length⟩

def kind (c : Command α) : Kind := c.body.kind

def args (c : Command α) : List α := c.body.args

def isMove (c : Command α) : Bool := c.kind = .move

-- Closing has one letter, whatever its tag.
def letter (c : Command α) : Char :=
  match c.kind with
  | .close => 'z'
  | kind => if c.relative then kind.letter.toLower else kind.letter

def explicit (c : Command α) : Command α := { c with implicit := false }

def asImplicit (c : Command α) : Command α := { c with implicit := true }

def mapNumbers (f : α → Except Fault α) (c : Command α) : Except Fault (Command α) :=
  return { c with body := ← c.body.mapNumbers f }

variable [Scalar α]

def toAbsolute (c : Command α) (start : Point α) : Command α :=
  if !c.relative || c.kind = .close then c
  else { c with body := c.body.shift start, relative := false }

def toRelative (c : Command α) (start : Point α) : Command α :=
  if c.relative || c.kind = .close then c
  else { c with body := c.body.shift (-start), relative := true }

def endPoint (c : Command α) (start subpathStart : Point α) : Point α :=
  c.body.endPoint (if c.relative then start else .origin) start subpathStart

end Command
end PathData
