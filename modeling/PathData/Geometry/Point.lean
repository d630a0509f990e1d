import PathData.Number.Scalar

namespace PathData

structure Point (α : Type) where
  x : α
  y : α
  deriving DecidableEq, Repr, Inhabited

namespace Point

open scoped PathData.Scalar

variable {α : Type} [Scalar α]

instance : Add (Point α) := ⟨fun a b => ⟨a.x + b.x, a.y + b.y⟩⟩
instance : Sub (Point α) := ⟨fun a b => ⟨a.x - b.x, a.y - b.y⟩⟩
instance : Neg (Point α) := ⟨fun a => ⟨-a.x, -a.y⟩⟩
instance : BEq (Point α) := ⟨fun a b => a.x == b.x && a.y == b.y⟩

def origin : Point α := ⟨0, 0⟩

def scale (a : Point α) (factor : α) : Point α :=
  ⟨a.x * factor, a.y * factor⟩

def reflect (a about : Point α) : Point α :=
  ⟨2 * about.x - a.x, 2 * about.y - a.y⟩

def cross (a b : Point α) : α :=
  a.x * b.y - a.y * b.x

def dot (a b : Point α) : α :=
  a.x * b.x + a.y * b.y

def length (a : Point α) : α :=
  Scalar.hypot a.x a.y

-- Closeness on each axis, strictly within the tolerance.
def near (a b : Point α) (tolerance : α) : Bool :=
  decide (Scalar.abs (a.x - b.x) < tolerance) && decide (Scalar.abs (a.y - b.y) < tolerance)

end Point
end PathData
