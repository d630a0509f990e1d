import PathData.Number.Decimal
import PathData.Text.Blank
import PathData.Text.Digit

namespace PathData
namespace Literal

open Text

def signed : List Char → Bool × List Char
  | '-' :: rest => (true, rest)
  | '+' :: rest => (false, rest)
  | s => (false, s)

-- An exponent without digits is none, and nothing of it is read.
def exponent (s : List Char) : Int × List Char :=
  match s with
  | c :: rest =>
    if c = 'e' ∨ c = 'E' then
      let (negative, rest) := signed rest
      match digits rest with
      | ([], _) => (0, s)
      | (ds, rest) => (if negative then -(ofDigits ds : Int) else ofDigits ds, rest)
    else (0, s)
  | [] => (0, s)

def mantissa (s : List Char) : Option (List Nat × List Nat × List Char) :=
  match digits s with
  | ([], '.' :: rest) =>
    match digits rest with
    | ([], _) => none
    | (fraction, rest) => some ([], fraction, rest)
  | ([], _) => none
  | (whole, '.' :: rest) => let (fraction, rest) := digits rest; some (whole, fraction, rest)
  | (whole, rest) => some (whole, [], rest)

def scan (s : List Char) : Option (Decimal × List Char) := do
  let (negative, s) := signed s
  let (whole, fraction, s) ← mantissa s
  let (power, s) := exponent s
  return (⟨negative, ofDigits (whole ++ fraction), power - fraction.length⟩, s)

-- Underscores go where they stand between two digits. Any other makes the text no literal.
def joinDigits (isDigit : Char → Bool) : List Char → Option (List Char)
  | c :: '_' :: d :: rest =>
    if isDigit c && isDigit d then (joinDigits isDigit (d :: rest)).map (c :: ·) else none
  | c :: rest => if c = '_' then none else (joinDigits isDigit rest).map (c :: ·)
  | [] => some []

def named? (s : List Char) : Option Numeral :=
  let (negative, name) := signed s
  match String.ofList (name.map Char.toLower) with
  | "inf" | "infinity" => some (.infinite negative)
  | "nan" => some .notANumber
  | _ => none

def bare? (s : List Char) : Option Numeral :=
  match scan s with
  | some (d, []) => some (.finite d)
  | _ => named? s

def read? (s : List Char) : Option Numeral := do
  bare? (← joinDigits (fun c => (digitValue? c).isSome) (trim s))

end Literal
end PathData
