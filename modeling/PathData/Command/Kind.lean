namespace PathData

inductive Kind where
  | move
  | line
  | horizontal
  | vertical
  | cubic
  | smoothCubic
  | quadratic
  | smoothQuadratic
  | arc
  | close
  deriving DecidableEq, Repr, Inhabited

-- What an argument says: a coordinate on one of the axes, a measure that does not move with the
-- pen, or one of the two flags of an arc.
inductive Slot where
  | x
  | y
  | measure
  | flag
  deriving DecidableEq, Repr, Inhabited

namespace Kind

def all : List Kind :=
  [.move, .line, .horizontal, .vertical, .cubic, .smoothCubic, .quadratic, .smoothQuadratic, .arc,
   .close]

def slots : Kind → List Slot
  | .move | .line | .smoothQuadratic => [.x, .y]
  | .horizontal => [.x]
  | .vertical => [.y]
  | .cubic => [.x, .y, .x, .y, .x, .y]
  | .smoothCubic | .quadratic => [.x, .y, .x, .y]
  | .arc => [.measure, .measure, .measure, .flag, .flag, .x, .y]
  | .close => []

def arity (k : Kind) : Nat :=
  k.slots.length

def letter : Kind → Char
  | .move => 'M'
  | .line => 'L'
  | .horizontal => 'H'
  | .vertical => 'V'
  | .cubic => 'C'
  | .smoothCubic => 'S'
  | .quadratic => 'Q'
  | .smoothQuadratic => 'T'
  | .arc => 'A'
  | .close => 'Z'

def name : Kind → String
  | .move => "MOVE"
  | .line => "LINE"
  | .horizontal => "HORIZONTAL"
  | .vertical => "VERTICAL"
  | .cubic => "CURVE"
  | .smoothCubic => "SMOOTH_CURVE"
  | .quadratic => "QUAD"
  | .smoothQuadratic => "SMOOTH_QUAD"
  | .arc => "ARC"
  | .close => "CLOSE"

def ofLetter? (c : Char) : Option Kind :=
  all.find? fun k => k.letter = c

-- A letter of either case, with whether it is lower case. The long s counts as a small s.
def read? (c : Char) : Option (Kind × Bool) :=
  if c = 'ſ' then some (.smoothCubic, true)
  else (ofLetter? c.toUpper).map fun k => (k, c.isLower)

def isLine : Kind → Bool
  | .line | .horizontal | .vertical => true
  | _ => false

end Kind
end PathData
