import PathData.Passes.Placed

namespace PathData
namespace Cleanup

variable {α : Type} [Scalar α]

def mergeMove (p next : Placed α) : Placed α :=
  let body : Body α :=
    match p.command.relative, p.command.body with
    | true, .move offset => .move (offset + (next.stop - next.start))
    | _, _ => .move next.stop
  { command := { p.command with body }, start := p.start, stop := next.stop }

-- Goes on from a command that may still take in the moves after it.
def mergeFrom (p : Placed α) : List (Placed α) → List (Placed α)
  | [] => [p]
  | next :: rest =>
    if next.command.isMove && p.command.isMove then mergeFrom (mergeMove p next) rest
    else p :: mergeFrom next rest

def mergeMoves : List (Placed α) → List (Placed α)
  | [] => []
  | p :: rest => mergeFrom p rest

-- Only the first move qualifies: at the origin its two forms carry the same numbers.
def switchLeadingMove (saving : Bool) : List (Placed α) → List (Placed α)
  | first :: second :: rest =>
    if first.command.isMove && second.command.kind = .line &&
        first.command.relative != second.command.relative then
      let move := { first.command with relative := second.command.relative, implicit := false }
      let line := second.command.asImplicit
      let before := print saving [first.command, second.command.explicit]
      let after := print saving [move, line]
      if after.length < before.length then
        { first with command := move } :: { second with command := line } :: rest
      else first :: second :: rest
    else first :: second :: rest
  | ps => ps

-- A move that is all there is says where it goes.
def settleLoneMove : List (Placed α) → List (Placed α)
  | [p] =>
    if p.command.isMove && p.command.relative then
      [{ p with command := { p.command with relative := false } }]
    else [p]
  | ps => ps

end Cleanup

def cleanup {α : Type} [Scalar α] (saving : Bool) (ps : List (Placed α)) : List (Placed α) :=
  Placed.retagFrom none
    (Cleanup.settleLoneMove (Cleanup.switchLeadingMove saving (Cleanup.mergeMoves ps)))

end PathData
