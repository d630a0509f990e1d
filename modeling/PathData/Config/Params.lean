import PathData.Config.Options
import PathData.Config.Value

namespace PathData

structure FlagKey where
  camel : String
  snake : String
  get : Flags → Bool
  set : Bool → Flags → Flags

def Flags.keys : List FlagKey :=
  [ ⟨"removeUseless", "remove_useless", Flags.removeUseless,
      fun b f => { f with removeUseless := b }⟩,
    ⟨"smartArcRounding", "smart_arc_rounding", Flags.smartArcRounding,
      fun b f => { f with smartArcRounding := b }⟩,
    ⟨"straightCurves", "straight_curves", Flags.straightCurves,
      fun b f => { f with straightCurves := b }⟩,
    ⟨"convertToQ", "convert_to_q", Flags.convertToQ, fun b f => { f with convertToQ := b }⟩,
    ⟨"lineShorthands", "line_shorthands", Flags.lineShorthands,
      fun b f => { f with lineShorthands := b }⟩,
    ⟨"collapseRepeated", "collapse_repeated", Flags.collapseRepeated,
      fun b f => { f with collapseRepeated := b }⟩,
    ⟨"curveSmoothShorthands", "curve_smooth_shorthands", Flags.curveSmoothShorthands,
      fun b f => { f with curveSmoothShorthands := b }⟩,
    ⟨"convertToZ", "convert_to_z", Flags.convertToZ, fun b f => { f with convertToZ := b }⟩,
    ⟨"forceAbsolutePath", "force_absolute_path", Flags.forceAbsolutePath,
      fun b f => { f with forceAbsolutePath := b }⟩,
    ⟨"negativeExtraSpace", "negative_extra_space", Flags.negativeExtraSpace,
      fun b f => { f with negativeExtraSpace := b }⟩,
    ⟨"utilizeAbsolute", "utilize_absolute", Flags.utilizeAbsolute,
      fun b f => { f with utilizeAbsolute := b }⟩ ]

namespace Params

structure Problem where
  place : List String
  cause : ValueError
  deriving DecidableEq, Repr, Inhabited

def Problem.precedes (a b : Problem) : Bool :=
  a.place < b.place || (a.place == b.place && !decide (b.cause.code < a.cause.code))

def sorted (problems : List Problem) : List Problem :=
  problems.mergeSort Problem.precedes

abbrev Fields := List (String × Value)

-- The key under which a field is given, with its value. The first spelling wins.
def find? (fields : Fields) (camel snake : String) : Option (String × Value) :=
  match fields.lookup camel with
  | some v => some (camel, v)
  | none => (fields.lookup snake).map fun v => (snake, v)

def read {β : Type} (field : Option (String × Value)) (absent : β)
    (reader : String → Value → Except (List Problem) β) : β × List Problem :=
  match field with
  | none => (absent, [])
  | some (key, v) =>
    match reader key v with
    | .ok b => (b, [])
    | .error problems => (absent, problems)

def one {β : Type} (place : List String) : Except ValueError β → Except (List Problem) β
  | .ok b => .ok b
  | .error cause => .error [⟨place, cause⟩]

-- A flag that is null is not set.
def readFlag (key : String) : Value → Except (List Problem) (Option Bool)
  | .null => .ok none
  | v => (one [key] v.toSwitch).map some

def readFlags (fields : Fields) : Flags × List Problem :=
  Flags.keys.foldl
    (fun (flags, problems) k =>
      let (value, more) := read (find? fields k.camel k.snake) none readFlag
      ((match value with
        | some b => k.set b flags
        | none => flags), problems ++ more))
    ({}, [])

-- Null turns arc fitting off. Keys of the inner dictionary that are not known do not matter.
def readMakeArcs (key : String) : Value → Except (List Problem) (Option (ArcFitting Float))
  | .null => .ok none
  | .dict inner =>
    let number (name : String) (absent : Float) : Float × List Problem :=
      read ((inner.lookup name).map fun v => (name, v)) absent
        fun name v => one [key, name] v.toFloat
    let default : ArcFitting Float := .default
    let (threshold, before) := number "threshold" default.threshold
    let (tolerance, after) := number "tolerance" default.tolerance
    let problems := before ++ after
    if problems.isEmpty then .ok (some ⟨threshold, tolerance⟩) else .error problems
  | _ => .error [⟨[key], .modelType "MakeArcs"⟩]

def makeArcsKeys : String × String := ("makeArcs", "make_arcs")

def precisionKeys : String × String := ("floatPrecision", "float_precision")

def keys : List (String × String) :=
  (Flags.keys.map fun k => (k.camel, k.snake)) ++ [makeArcsKeys, precisionKeys]

def unknown (fields : Fields) : List Problem :=
  let known := keys.filterMap fun (camel, snake) => (find? fields camel snake).map Prod.fst
  (fields.filter fun (key, _) => !known.contains key).map fun (key, _) => ⟨[key], .extraForbidden⟩

-- The options for a configuration value. Without a precision of its own it takes `precision`.
def validate (precision : Int) : Value → Except (List Problem) (Options Float)
  | .dict fields =>
    let (flags, flagProblems) := readFlags fields
    let (makeArcs, arcProblems) :=
      read (find? fields makeArcsKeys.1 makeArcsKeys.2) (some .default) readMakeArcs
    let (precision, precisionProblems) :=
      read (find? fields precisionKeys.1 precisionKeys.2) precision fun key v => one [key] v.toInt
    let problems := flagProblems ++ arcProblems ++ precisionProblems ++ unknown fields
    if problems.isEmpty then .ok { flags, makeArcs, precision } else .error (sorted problems)
  | _ => .error [⟨[], .modelType "ConvertPathDataParams"⟩]

end Params
end PathData
