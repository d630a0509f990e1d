import PathData.Command.Implied
import PathData.Number.Layout

namespace PathData
namespace Printer

open scoped PathData.Scalar

variable {α : Type} [Scalar α]

def number (x : α) : List Char :=
  Layout.compact (Scalar.numeral x)

def token (slot : Slot) (x : α) : List Char :=
  match slot with
  | .flag => if x == 0 then ['0'] else ['1']
  | _ => number x

def tokens (c : Command α) : List (List Char) :=
  List.zipWith token c.kind.slots c.args

-- Without the leave to save spaces, one stands between any two arguments.
def needsSpace (saving : Bool) (last next : List Char) : Bool :=
  if last.isEmpty then false
  else if !saving then true
  else if next.head? = some '-' then false
  else if next.head? = some '.' && last.contains '.' && !last.contains 'e' then false
  else true

-- The tokens in a row, after a token that is already written; an empty one stands for none.
def joinAfter (saving : Bool) (last : List Char) : List (List Char) → List Char
  | [] => []
  | t :: rest =>
    (if needsSpace saving last t then ' ' :: t else t) ++ joinAfter saving t rest

def lastToken : Option (Command α) → List Char
  | none => []
  | some c => (tokens c).getLast?.getD []

def command (saving : Bool) (previous : Option (Command α)) (c : Command α) : List Char :=
  if c.implicit then joinAfter saving (lastToken previous) (tokens c)
  else c.letter :: joinAfter saving [] (tokens c)

def commandsFrom (saving : Bool) (previous : Option (Command α)) : List (Command α) → List Char
  | [] => []
  | c :: rest => command saving previous c ++ commandsFrom saving (some c) rest

end Printer

def print {α : Type} [Scalar α] (saving : Bool) (cs : List (Command α)) : List Char :=
  Printer.commandsFrom saving none cs

end PathData
