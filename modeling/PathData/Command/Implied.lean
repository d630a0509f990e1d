import PathData.Command.Basic

namespace PathData
namespace Command

variable {α : Type}

-- The letter that a command without one is read with. A move implies lines.
def impliedLetter : Option (Command α) → Option Char
  | none => none
  | some c =>
    match c.kind with
    | .close => none
    | .move => some (if c.relative then 'l' else 'L')
    | _ => some c.letter

def tagAfter (previous : Option (Command α)) (c : Command α) : Command α :=
  if c.kind ≠ .close ∧ impliedLetter previous = some c.letter then c.asImplicit else c.explicit

def retagFrom (previous : Option (Command α)) : List (Command α) → List (Command α)
  | [] => []
  | c :: rest =>
    let c := tagAfter previous c
    c :: retagFrom (some c) rest

def retag (cs : List (Command α)) : List (Command α) :=
  retagFrom none cs

end Command
end PathData
