import PathData.Passes.Placed

namespace PathData
namespace Rebase

variable {α : Type} [Scalar α]

structure State (α : Type) where
  cursor : Point α
  subpathStart : Point α
  previous : Option (Command α)

def initial : State α := ⟨.origin, .origin, none⟩

-- A new form can have another letter, and then the command before no longer implies it.
def keepTag (previous : Option (Command α)) (c : Command α) : Command α :=
  if c.implicit ∧ Command.impliedLetter previous ≠ some c.letter then c.explicit else c

def step (absolute : Bool) (s : State α) (c : Command α) : Placed α × State α :=
  let stop := c.endPoint s.cursor s.subpathStart
  let rebased := if absolute then c.toAbsolute s.cursor else c.toRelative s.cursor
  let rebased := keepTag s.previous rebased
  ({ command := rebased, start := s.cursor, stop },
    { cursor := stop
      subpathStart := if c.isMove then stop else s.subpathStart
      previous := some rebased })

def stepAll (absolute : Bool) (s : State α) : List (Command α) → List (Placed α)
  | [] => []
  | c :: rest =>
    let (placed, s) := step absolute s c
    placed :: Rebase.stepAll absolute s rest

end Rebase

def rebase {α : Type} [Scalar α] (absolute : Bool) : List (Command α) → List (Placed α)
  | [] => []
  | c :: rest =>
    let (placed, s) := Rebase.step true Rebase.initial c
    placed :: Rebase.stepAll absolute s rest

end PathData
