import PathData.Number.Double
import PathData.Number.Literal

namespace PathData

inductive Value where
  | null
  | bool (b : Bool)
  | int (n : Int)
  | float (x : Float)
  | text (s : String)
  | list (items : List Value)
  | dict (fields : List (String × Value))
  deriving Inhabited

inductive ValueError where
  | boolType
  | boolParsing
  | intType
  | intParsing
  | intParsingSize
  | intFromFloat
  | finiteNumber
  | floatType
  | floatParsing
  | extraForbidden
  | modelType (model : String)
  deriving DecidableEq, Repr, Inhabited

namespace ValueError

def code : ValueError → String
  | .boolType => "bool_type"
  | .boolParsing => "bool_parsing"
  | .intType => "int_type"
  | .intParsing => "int_parsing"
  | .intParsingSize => "int_parsing_size"
  | .intFromFloat => "int_from_float"
  | .finiteNumber => "finite_number"
  | .floatType => "float_type"
  | .floatParsing => "float_parsing"
  | .extraForbidden => "extra_forbidden"
  | .modelType _ => "model_type"

def message : ValueError → String
  | .boolType => "Input should be a valid boolean"
  | .boolParsing => "Input should be a valid boolean, unable to interpret input"
  | .intType => "Input should be a valid integer"
  | .intParsing => "Input should be a valid integer, unable to parse string as an integer"
  | .intParsingSize => "Unable to parse input string as an integer, exceeded maximum size"
  | .intFromFloat => "Input should be a valid integer, got a number with a fractional part"
  | .finiteNumber => "Input should be a finite number"
  | .floatType => "Input should be a valid number"
  | .floatParsing => "Input should be a valid number, unable to parse string as a number"
  | .extraForbidden => "Extra inputs are not permitted"
  | .modelType model => "Input should be a valid dictionary or instance of " ++ model

end ValueError

namespace Value

def noWords : List String := ["0", "f", "n", "no", "off", "false"]

def yesWords : List String := ["1", "t", "y", "yes", "on", "true"]

-- Words are read in any case but not trimmed.
def switchOfText (s : String) : Except ValueError Bool :=
  let word := String.ofList (s.toList.map Char.toLower)
  if yesWords.contains word then .ok true
  else if noWords.contains word then .ok false
  else .error .boolParsing

def toSwitch : Value → Except ValueError Bool
  | .bool b => .ok b
  | .int n => if n = 0 then .ok false else if n = 1 then .ok true else .error .boolParsing
  | .float x =>
    if x == 0.0 then .ok false else if x == 1.0 then .ok true else .error .boolType
  | .text s => switchOfText s
  | _ => .error .boolType

-- The information separators are not trimmed from numbers.
def isMargin (c : Char) : Bool :=
  Text.isBlank c && !(0x1C ≤ c.toNat && c.toNat ≤ 0x1F)

def trimMargins (s : List Char) : List Char :=
  ((s.dropWhile isMargin).reverse.dropWhile isMargin).reverse

def withoutZeroFraction (s : List Char) : List Char :=
  match s.dropWhile (· ≠ '.') with
  | '.' :: fraction => if fraction.all (· = '0') then s.takeWhile (· ≠ '.') else s
  | _ => s

def natural? (s : List Char) : Option Nat := do
  let ds ← Literal.joinDigits Char.isDigit s
  if ds.isEmpty || !ds.all Char.isDigit then none
  else some (Text.ofDigits (ds.map fun c => c.toNat - '0'.toNat))

def maxIntegerText : Nat := 4300

def intOfText (s : String) : Except ValueError Int :=
  let trimmed := trimMargins s.toList
  if maxIntegerText < trimmed.length then .error .intParsingSize
  else
    let (negative, unsigned) := Literal.signed trimmed
    match natural? (withoutZeroFraction unsigned) with
    | some n => .ok (if negative then -n else n)
    | none => .error .intParsing

def intOfFloat (x : Float) : Except ValueError Int :=
  match (Binary.ofFloat x).floor with
  | .error _ => .error .finiteNumber
  | .ok n =>
    if Float.ofInt n != x then .error .intFromFloat
    else if n.natAbs < Nat.pow 2 63 then .ok n
    else .error .intParsingSize

def toInt : Value → Except ValueError Int
  | .bool b => .ok (if b then 1 else 0)
  | .int n => .ok n
  | .float x => intOfFloat x
  | .text s => intOfText s
  | _ => .error .intType

-- Single underscores anywhere inside are dropped, if nothing can be read with them.
def withoutUnderscores? (s : List Char) : Option (List Char) :=
  let outer := s.head? = some '_' || s.getLast? = some '_'
  let double := (List.zip s s.tail).any fun (a, b) => a = '_' && b = '_'
  if outer || double || !s.contains '_' then none else some (s.filter (· ≠ '_'))

def plainFloat? (s : List Char) : Option Float :=
  if s.all fun c => c.toNat < 128 then (Literal.bare? s).map Double.ofNumeral else none

def floatOfText (s : String) : Except ValueError Float :=
  match plainFloat? (trimMargins s.toList) with
  | some x => .ok x
  | none =>
    match (withoutUnderscores? s.toList).bind plainFloat? with
    | some x => .ok x
    | none => .error .floatParsing

def toFloat : Value → Except ValueError Float
  | .bool b => .ok (if b then 1.0 else 0.0)
  | .int n => .ok (Float.ofInt n)
  | .float x => .ok x
  | .text s => floatOfText s
  | _ => .error .floatType

end Value
end PathData
