import PathData.Command.Implied
import PathData.Path.Printer

namespace PathData

structure Placed (α : Type) where
  command : Command α
  start : Point α
  stop : Point α
  deriving DecidableEq, Repr, Inhabited

namespace Placed

variable {α : Type}

def commands (ps : List (Placed α)) : List (Command α) :=
  ps.map Placed.command

def retagFrom (previous : Option (Command α)) : List (Placed α) → List (Placed α)
  | [] => []
  | p :: rest =>
    let command := Command.tagAfter previous p.command
    { p with command } :: retagFrom (some command) rest

end Placed
end PathData
