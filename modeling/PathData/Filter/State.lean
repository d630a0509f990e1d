import PathData.Geometry.Segment
import PathData.Passes.Placed

namespace PathData
namespace Filter

-- The output has the newest command first.
structure State (α : Type) where
  cursor : Point α
  subpathStart : Point α
  output : List (Placed α)
  handle : Handle α
  deriving DecidableEq, Repr, Inhabited

-- A command to write, with the handle that it leaves when it is rendered.
structure Step (α : Type) where
  command : Command α
  handle : Handle α := {}
  deriving DecidableEq, Repr, Inhabited

namespace State

variable {α : Type}

def previous (s : State α) : Option (Command α) :=
  s.output.head?.map Placed.command

-- Takes back the last command. The handle before it is forgotten, and the subpath keeps its start.
def pop? (s : State α) : Option (Placed α × State α) :=
  match s.output with
  | [] => none
  | p :: rest => some (p, { s with cursor := p.start, output := rest, handle := {} })

variable [Scalar α]

def initial : State α := ⟨.origin, .origin, [], {}⟩

def emit (s : State α) (step : Step α) : State α :=
  let stop := step.command.endPoint s.cursor s.subpathStart
  let command := Command.tagAfter s.previous step.command
  { cursor := stop
    subpathStart := if command.isMove then stop else s.subpathStart
    output := { command, start := s.cursor, stop } :: s.output
    handle := step.handle }

def emitAll (s : State α) (steps : List (Step α)) : State α :=
  steps.foldl emit s

end State

variable {α : Type} [Scalar α]

-- The characters that steps add to a text that ends in `previous`.
def costAfter (saving : Bool) (previous : Option (Command α)) : List (Step α) → Nat
  | [] => 0
  | step :: rest =>
    let c := Command.tagAfter previous step.command
    (Printer.command saving previous c).length + costAfter saving (some c) rest

def spellsLetter (previous : Option (Command α)) : List (Step α) → Bool
  | [] => true
  | step :: _ => !(Command.tagAfter previous step.command).implicit

-- Strictly fewer characters, or as many and a letter less to spell.
def isBetter (saving : Bool) (previous : Option (Command α)) (a b : List (Step α)) : Bool :=
  let costA := costAfter saving previous a
  let costB := costAfter saving previous b
  costA < costB || (costA == costB && !spellsLetter previous a && spellsLetter previous b)

-- The best of several ways to write the same thing; of equally good ones the earliest.
def choose (saving : Bool) (previous : Option (Command α)) (best : List (Step α)) :
    List (List (Step α)) → List (Step α)
  | [] => best
  | steps :: rest =>
    choose saving previous (if isBetter saving previous steps best then steps else best) rest

end Filter
end PathData
