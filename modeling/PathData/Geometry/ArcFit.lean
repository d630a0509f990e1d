import PathData.Config.Options
import PathData.Geometry.Segment

namespace PathData

-- The angle is signed; positive is the direction of sweep. A full turn ends where it starts, so no
-- single arc can draw it.
structure ArcFit (α : Type) where
  radius : α
  large : Bool
  sweep : Bool
  center : Point α
  angle : α
  fullTurn : Bool
  deriving DecidableEq, Repr, Inhabited

-- Proposes an arc for consecutive segments, given the unit of precision and the rounding that its
-- radius will be written with.
abbrev ArcFitter (α : Type) :=
  ArcFitting α → α → (α → Except Fault α) → List (Segment α) → Except Fault (Option (ArcFit α))

end PathData
