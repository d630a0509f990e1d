import PathData.Command.Basic
import PathData.Number.Rounding

namespace PathData

structure Flags where
  removeUseless : Bool := true
  smartArcRounding : Bool := true
  straightCurves : Bool := true
  convertToQ : Bool := true
  lineShorthands : Bool := true
  collapseRepeated : Bool := true
  curveSmoothShorthands : Bool := true
  convertToZ : Bool := true
  forceAbsolutePath : Bool := false
  negativeExtraSpace : Bool := true
  utilizeAbsolute : Bool := true
  deriving DecidableEq, Repr, Inhabited

-- How far a fitted arc may stray: `threshold` counts units of precision, `tolerance` is a
-- percentage of the radius, and the smaller of the two holds.
structure ArcFitting (α : Type) where
  threshold : α
  tolerance : α
  deriving DecidableEq, Repr, Inhabited

open scoped PathData.Scalar in
def ArcFitting.default {α : Type} [Scalar α] : ArcFitting α := ⟨5 / 2, 1 / 2⟩

-- Without `makeArcs` no curve becomes an arc.
structure Options (α : Type) where
  flags : Flags
  makeArcs : Option (ArcFitting α)
  precision : Int
  deriving DecidableEq, Repr, Inhabited

namespace Options

variable {α : Type} [Scalar α]

def defaultPrecision : Int := 3

def default : Options α := ⟨{}, some .default, defaultPrecision⟩

-- The unit of precision, which is also the distance that counts as none.
def error (o : Options α) : Except Fault α :=
  Rounding.unit o.precision

def round (o : Options α) (error x : α) : Except Fault α :=
  Rounding.round o.precision error x

def roundAll (o : Options α) (error : α) (xs : List α) : Except Fault (List α) :=
  xs.mapM (o.round error)

def roundCommand (o : Options α) (error : α) (c : Command α) : Except Fault (Command α) :=
  c.mapNumbers (o.round error)

end Options
end PathData
