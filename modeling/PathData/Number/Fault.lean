namespace PathData

-- A fault is a cause. Its wording is `Fault.message` and nothing else looks at the text.
inductive Fault where
  | notANumber
  | infinite
  | outOfRange
  | hugeExponent
  | divisionByZero
  | domain
  | noConvergence
  | tooDeep
  deriving DecidableEq, Repr, Inhabited

namespace Fault

def message : Fault → String
  | .notANumber => "cannot convert float NaN to integer"
  | .infinite => "cannot convert float infinity to integer"
  | .outOfRange => "(34, 'Numerical result out of range')"
  | .hugeExponent => "int too large to convert to float"
  | .divisionByZero => "float division by zero"
  | .domain => "math domain error"
  | .noConvergence => "SVD did not converge in Linear Least Squares"
  | .tooDeep => "maximum recursion depth exceeded"

end Fault

end PathData
