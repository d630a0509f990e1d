import PathData.Geometry.Segment

namespace PathData
namespace Polyline

variable {α : Type}

-- The samples of consecutive segments in a row, each shared joint written once.
def join (parts : List (List (Point α))) : List (Point α) :=
  match parts with
  | [] => []
  | first :: rest => first ++ rest.flatMap List.tail

-- The part that is complete, if it draws anything. The newest segment is first.
def finish (current : List (Segment α)) : List (List (Segment α)) :=
  if current.isEmpty then [] else [current.reverse]

-- A move ends a subpath before itself, and closing ends one after itself.
def subpathsFrom (current : List (Segment α)) : List (Segment α) → List (List (Segment α))
  | [] => finish current
  | s :: rest =>
    match s.shape with
    | .move => finish current ++ subpathsFrom [] rest
    | .close => finish (s :: current) ++ subpathsFrom [] rest
    | _ => subpathsFrom (s :: current) rest

def flatten (sample : Segment α → List (Point α)) (segments : List (Segment α)) :
    List (List (Point α)) :=
  (subpathsFrom [] segments).map fun run => join (run.map sample)

end Polyline
end PathData
