import PathData.Command.Basic
import PathData.Number.Literal
import PathData.Text.Blank
import PathData.Text.Quoted

namespace PathData
namespace Parser

open Text

-- What was found wrong. `none` stands for the end of the text.
inductive Cause where
  | unknownCommand (found : Char)
  | expectedNumber (found : Option Char)
  | expectedFlag (found : Option Char)
  | missingMove
  deriving DecidableEq, Repr, Inhabited

structure Stop where
  cause : Cause
  rest : List Char
  deriving DecidableEq, Repr, Inhabited

structure Failure where
  cause : Cause
  offset : Nat
  deriving DecidableEq, Repr, Inhabited

def found : Option Char → String
  | some c => quote c
  | none => "'end of data'"

def Cause.message : Cause → String
  | .unknownCommand c => "Unknown command " ++ quote c
  | .expectedNumber c => "Expected number, found " ++ found c
  | .expectedFlag c => "Expected arc flag, found " ++ found c
  | .missingMove => "Path data must start with a move"

def Failure.message (e : Failure) : String :=
  e.cause.message ++ " at offset " ++ toString e.offset

abbrev Reader (β : Type) := StateT (List Char) (Except Stop) β

variable {α : Type} [Scalar α]

def isSeparator (c : Char) : Bool :=
  isBlank c || c = ','

def skipSeparators (s : List Char) : List Char :=
  s.dropWhile isSeparator

def separators : Reader Unit := fun s => .ok ((), skipSeparators s)

def number : Reader α := fun s =>
  match Literal.scan s with
  | some (d, rest) => .ok (Scalar.ofDecimal d, rest)
  | none => .error ⟨.expectedNumber s.head?, s⟩

open scoped PathData.Scalar in
def flag : Reader α
  | '0' :: rest => .ok (0, rest)
  | '1' :: rest => .ok (1, rest)
  | s => .error ⟨.expectedFlag s.head?, s⟩

def point : Reader (Point α) := do
  let x ← number
  separators
  let y ← number
  return ⟨x, y⟩

def nextPoint : Reader (Point α) := do
  separators
  point

def arcShape : Reader (ArcShape α) := do
  let rx ← number
  separators
  let ry ← number
  separators
  let rotation ← number
  separators
  let large ← flag
  separators
  let sweep ← flag
  return ⟨rx, ry, rotation, large, sweep⟩

def body : Kind → Reader (Body α)
  | .move => return .move (← point)
  | .line => return .line (← point)
  | .horizontal => return .horizontal (← number)
  | .vertical => return .vertical (← number)
  | .cubic => return .cubic (← point) (← nextPoint) (← nextPoint)
  | .smoothCubic => return .smoothCubic (← point) (← nextPoint)
  | .quadratic => return .quadratic (← point) (← nextPoint)
  | .smoothQuadratic => return .smoothQuadratic (← point)
  | .arc => return .arc (← arcShape) (← nextPoint)
  | .close => return .close

def repeated : Kind → Kind
  | .move => .line
  | kind => kind

def atLetter : List Char → Bool
  | c :: _ => (Kind.read? c).isSome
  | [] => false

-- Groups follow one another until the text ends or a letter comes. The fuel bounds their number;
-- every group takes at least one character, so one more than the length of the text is enough.
def groups (relative : Bool) : Nat → Kind → Bool → Reader (List (Command α))
  | 0, _, _ => return []
  | fuel + 1, kind, implicit => do
    let c : Command α := ⟨← body kind, relative, implicit⟩
    separators
    let rest ← get
    if rest.isEmpty || atLetter rest then return [c]
    else return c :: (← groups relative fuel (repeated kind) true)

-- The units of a text. Every unit takes a letter, so the fuel never falls below what is left.
def units : Nat → Bool → List Char → Except Stop (List (Command α))
  | 0, _, _ | _, _, [] => .ok []
  | fuel + 1, isFirst, c :: rest =>
    match Kind.read? c with
    | none => .error ⟨.unknownCommand c, c :: rest⟩
    | some (kind, relative) =>
      if isFirst && kind != .move then .error ⟨.missingMove, c :: rest⟩
      else
        let rest := skipSeparators rest
        if kind = .close then return { body := .close } :: (← units fuel false rest)
        else do
          let (group, rest) ← groups relative (fuel + 1) kind false rest
          return group ++ (← units fuel false rest)

end Parser

def parse {α : Type} [Scalar α] (text : List Char) :
    Except Parser.Failure (List (Command α)) :=
  let s := text.dropWhile Text.isBlank
  match Parser.units s.length true s with
  | .ok cs => .ok cs
  | .error stop => .error ⟨stop.cause, text.length - stop.rest.length⟩

end PathData
