import PathData.Config.Options
import PathData.Passes.Placed

namespace PathData
namespace Mixed

variable {α : Type} [Scalar α]

def cost (saving : Bool) (previous : Option (Command α)) (c : Command α) : Nat :=
  (Printer.command saving previous (Command.tagAfter previous c)).length

-- Of two equally short forms the relative one is taken.
def shorter (o : Options α) (error : α) (previous : Option (Command α)) (start : Point α)
    (c : Command α) : Except Fault (Command α) := do
  let relative ← o.roundCommand error (c.toRelative start)
  let absolute ← o.roundCommand error (c.toAbsolute start)
  let length := cost o.flags.negativeExtraSpace previous
  return if length absolute < length relative then absolute else relative

def chooseFrom (o : Options α) (error : α) (previous : Option (Command α)) :
    List (Placed α) → Except Fault (List (Placed α))
  | [] => return []
  | p :: rest => do
    let c := p.command.explicit
    let c ←
      if previous.isNone || c.kind = .close then pure c
      else shorter o error previous p.start c
    let c := Command.tagAfter previous c
    return { p with command := c } :: (← chooseFrom o error (some c) rest)

end Mixed

def chooseForms {α : Type} [Scalar α] (o : Options α) (ps : List (Placed α)) :
    Except Fault (List (Placed α)) := do
  Mixed.chooseFrom o (← o.error) none ps

end PathData
