import PathData.Text.Blank

namespace PathData

-- Attributes or style properties, by name. A name that occurs twice has its first value.
abbrev Properties := List (String × String)

def Properties.get? (ps : Properties) (name : String) : Option String :=
  List.lookup name ps

def Properties.has (ps : Properties) (name : String) : Bool :=
  (ps.get? name).isSome

structure Style where
  -- A marker inside the path is drawn at every vertex.
  hasMarkerMid : Bool := false
  maybeHasStroke : Bool := false
  -- A cap other than butt paints a dot for a segment without length.
  maybeHasLinecap : Bool := false
  isSafeToUseZ : Bool := false
  hasMarker : Bool := false
  deriving DecidableEq, Repr, Inhabited

namespace Style

def trimmed (value : Option String) : Option (List Char) :=
  value.map fun s => Text.trim s.toList

def isRound (value : Option String) : Bool :=
  trimmed value = some "round".toList

-- From computed style properties. Closing a subpath changes how a stroke ends, unless caps and
-- joins are both round.
def gather (styles : Properties) (hasMarker : Bool) : Style :=
  let stroke := trimmed (styles.get? "stroke")
  let linecap := styles.get? "stroke-linecap"
  let linejoin := styles.get? "stroke-linejoin"
  let maybeHasStroke := stroke.isSome && stroke != some "none".toList
  { hasMarkerMid := styles.has "marker-mid"
    maybeHasStroke
    maybeHasLinecap := linecap.isSome && trimmed linecap != some "butt".toList
    isSafeToUseZ := !maybeHasStroke || (isRound linecap && isRound linejoin)
    hasMarker }

-- Markers at the ends come from attributes, the rest from the computed style.
def ofElement (attributes styles : Properties) : Style :=
  gather styles (attributes.has "marker-start" || attributes.has "marker-end")

end Style
end PathData
