import PathData.Filter.Candidates

namespace PathData
namespace Filter

open scoped PathData.Scalar

structure Source (α : Type) where
  command : Command α
  segment : Segment α
  deriving DecidableEq, Repr, Inhabited

variable {α : Type} [Scalar α]

def sourcesOf (cs : List (Command α)) : List (Source α) :=
  List.zipWith Source.mk cs (longhand cs)

-- Whether a segment draws nothing that could be seen from the cursor. A large arc that comes back
-- to where it starts is drawn, unless its ends are exactly the same.
def isUseless (f : Setup α) (s : State α) (segment : Segment α) : Bool :=
  let near := segment.points.tail.all fun p => p.near s.cursor f.error
  match segment.shape with
  | .arc e =>
    if f.removalAllowed && segment.start == segment.stop then true
    else !e.large && f.zeroLengthRemovalAllowed && near
  | _ => f.zeroLengthRemovalAllowed && near

-- Whether the pen can go straight to `stop` past the end of the line `p`: both run the same way,
-- and the end of `p` lies within the error of the chord.
def canFold (p : Placed α) (stop : Point α) (error : α) : Bool :=
  let first := p.stop - p.start
  let second := stop - p.stop
  if first.dot second ≤ 0 then false
  else
    let chord := stop - p.start
    !(chord.length == 0 || decide (error ≤ Scalar.abs (chord.cross first) / chord.length))

def collapse (f : Setup α) (s : State α) (stop : Point α) : State α :=
  if !f.flags.collapseRepeated || f.style.hasMarkerMid then s
  else
    match s.pop? with
    | none => s
    | some (p, before) =>
      if p.command.kind.isLine && canFold p stop f.error then before else s

-- The longest run of curves that one arc fits, with the number of curves after the first. A fit that
-- turns all the way round ends the search, and so does a run without one.
def longestFit (f : Setup α) (best : Option (Nat × ArcFit α)) (taken : List (Source α)) :
    List (Source α) → Except Fault (Option (Nat × ArcFit α))
  | [] => return best
  | next :: rest => do
    if !next.segment.isCurve then return best
    let run := taken ++ [next]
    match ← f.fit (run.map Source.segment) with
    | none => return best
    | some fit =>
      let best := some (taken.length, fit)
      if fit.fullTurn then return best else longestFit f best run rest

def spelledLength (f : Setup α) : List (Source α) → Except Fault Nat
  | [] => return 0
  | source :: rest => do
    let c ← f.options.roundCommand f.error source.command.explicit
    return (Printer.command true none c).length + (← spelledLength f rest)

-- Arcs in place of two or more curves on one circle, where that saves characters. Gives the number
-- of curves after the first that they stand for.
def arcRun? (f : Setup α) (s : State α) (source : Source α) (rest : List (Source α)) :
    Except Fault (Option (State α × Nat)) := do
  if f.options.makeArcs.isNone || f.style.hasMarkerMid then return none
  match ← longestFit f none [source] rest with
  | none => return none
  | some (count, fit) =>
    let run := source :: rest.take count
    let stop := ((run.getLast?).getD source).segment.stop
    let steps ← fittedSteps f s fit source.segment.start stop
    let replaced ← spelledLength f run
    if replaced ≤ costAfter f.flags.negativeExtraSpace s.previous steps then return none
    return some (s.emitAll steps, count)

-- Whether closing can go: nothing was drawn since the last close, or at all.
def isUselessClose (f : Setup α) (s : State α) : Bool :=
  match s.previous with
  | none => false
  | some c =>
    (f.removalAllowed && c.kind = .close) || (f.zeroLengthRemovalAllowed && c.kind = .move)

def draw (f : Setup α) (s : State α) (source : Source α) (trailing : Bool) :
    Except Fault (State α) := do
  let segment := source.segment
  let (s, candidates) ←
    match segment.shape with
    | .line =>
      let s := collapse f s segment.stop
      pure (s, ← lineCandidates f s segment.stop source.command.kind trailing)
    | .arc e => pure (s, ← arcCandidates f s segment e trailing)
    | _ => pure (s, ← curveCandidates f s segment source.command.kind trailing)
  match candidates with
  | [] => return s
  | first :: others =>
    return s.emitAll (choose f.flags.negativeExtraSpace s.previous first others)

def isTrailing : List (Source α) → Bool
  | [] => true
  | next :: _ => next.segment.isMove || next.segment.kind = .close

-- Handles one source, and tells how many of those after it went into the same output.
def visit (f : Setup α) (s : State α) (isFirst : Bool) (source : Source α)
    (rest : List (Source α)) : Except Fault (State α × Nat) := do
  let segment := source.segment
  match segment.shape with
  | .move => return (s.emit { command := ← f.place (.move segment.stop) s.cursor isFirst }, 0)
  | .close =>
    if isUselessClose f s then return (s, 0)
    return (s.emit { command := { body := .close } }, 0)
  | _ =>
    if segment.isCurve then
      match ← arcRun? f s source rest with
      | some result => return result
      | none => pure ()
    if isUseless f s segment then return (s, 0)
    return (← draw f s source (isTrailing rest), 0)

-- `taken` counts the sources ahead that are done already.
def visitAll (f : Setup α) (s : State α) (isFirst : Bool) :
    Nat → List (Source α) → Except Fault (State α)
  | _, [] => return s
  | taken + 1, _ :: rest => visitAll f s false taken rest
  | 0, source :: rest => do
    let (s, taken) ← visit f s isFirst source rest
    visitAll f s false taken rest

end Filter

-- The cheapest equivalent of each command. The points of the input play no part.
def filterCommands {α : Type} [Scalar α] (fitter : ArcFitter α) (options : Options α)
    (style : Style) (ps : List (Placed α)) : Except Fault (List (Placed α)) := do
  let f : Filter.Setup α := { options, style, error := ← options.error, fitter }
  let s ← Filter.visitAll f .initial true 0 (Filter.sourcesOf (Placed.commands ps))
  return s.output.reverse

end PathData
