import PathData.Geometry.Polyline
import PathData.Geometry.Region
import PathData.Geometry.Sample
import PathData.Number.Literal
import PathData.Path.Parser

namespace PathData

open scoped PathData.Scalar

structure ViewBox (α : Type) where
  left : α
  top : α
  width : α
  height : α
  deriving DecidableEq, Repr, Inhabited

namespace ViewBox

variable {α : Type} [Scalar α]

-- Edges count as inside.
def contains (b : ViewBox α) (p : Point α) : Bool :=
  decide (b.left ≤ p.x) && decide (p.x ≤ b.left + b.width) &&
    decide (b.top ≤ p.y) && decide (p.y ≤ b.top + b.height)

def rect (b : ViewBox α) : Rect α := ⟨b.top, b.left, b.width, b.height⟩

end ViewBox

namespace Canvas

def readNumber? (s : List Char) : Option Float :=
  (Literal.read? s).map Double.ofNumeral

-- A length may carry the unit of pixels, once.
def withoutUnit (s : List Char) : List Char :=
  match s.reverse with
  | 'x' :: 'p' :: rest => rest.reverse
  | _ => s

def readLength? (s : List Char) : Option Float :=
  readNumber? (withoutUnit (Text.trim s))

def readBox? (s : List Char) : Option (ViewBox Float) :=
  match (Text.fields Parser.isSeparator s).mapM readNumber? with
  | some [left, top, width, height] => some ⟨left, top, width, height⟩
  | _ => none

def viewBox? (viewBox width height : Option (List Char)) : Option (ViewBox Float) :=
  match viewBox with
  | some (c :: rest) => readBox? (c :: rest)
  | _ => do return ⟨0.0, 0.0, ← readLength? (← width), ← readLength? (← height)⟩

def intersects (cs : List (Command Float)) (r : Rect Float) : Bool :=
  (Polyline.flatten (fun s => s.sample Sample.perSegment) (longhand cs)).any (Region.reachesRect r)

-- Path data that cannot be read counts as visible, and so does a move to a point inside. A single
-- drawing command is closed, because it has an area as well.
def isVisible (text : List Char) (box : ViewBox Float) : Bool :=
  match parse (α := Float) text with
  | .error _ => true
  | .ok cs =>
    let movesInside := (longhand cs).any fun s => s.isMove && box.contains s.stop
    let cs := if cs.length = 2 then cs ++ [{ body := .close }] else cs
    movesInside || intersects cs box.rect

end Canvas
end PathData
