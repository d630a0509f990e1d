import PathData.Filter.Run
import PathData.Passes.Cleanup
import PathData.Passes.Mixed
import PathData.Passes.Rebase
import PathData.Path.Parser
import PathData.Registry

namespace PathData

inductive PassFailure where
  | fault (cause : Fault)
  | other (text : String)
  deriving DecidableEq, Repr, Inhabited

def PassFailure.message : PassFailure → String
  | .fault cause => cause.message
  | .other text => text

structure Job (α : Type) where
  path : List (Command α)
  options : Options α
  style : Style

-- A pass takes the placed commands on, and says whether it failed. What it has changed by then
-- stays changed.
abbrev Action (α : Type) :=
  Job α → List (Placed α) → List (Placed α) × Option PassFailure

structure Entry (α : Type) where
  id : String
  result : List (Placed α)
  failure : Option PassFailure

namespace Pipeline

variable {α : Type}

-- A pass that changes nothing when it fails.
def action (f : Job α → List (Placed α) → Except Fault (List (Placed α))) : Action α :=
  fun job ps =>
    match f job ps with
    | .ok result => (result, none)
    | .error cause => (ps, some (.fault cause))

def hasDrawing (cs : List (Command α)) : Bool :=
  cs.any fun c => !c.isMove

def absoluteTag : String := "utilize_absolute"

def skipped (r : Registry (Action α)) (flags : Flags) : List String :=
  if !flags.utilizeAbsolute || flags.forceAbsolutePath then r.tagged absoluteTag else []

def runAll (job : Job α) (ps : List (Placed α)) : List (Pass (Action α)) → List (Entry α)
  | [] => []
  | pass :: rest =>
    let (result, failure) := pass.run job ps
    { id := pass.id, result, failure } :: runAll job result rest

def run (r : Registry (Action α)) (job : Job α) : Except RegistryError (List (Entry α)) := do
  return runAll job [] (← r.without (skipped r job.options.flags))

def completed (entries : List (Entry α)) : List String :=
  (entries.filter fun e => e.failure.isNone).map Entry.id

def failures (entries : List (Entry α)) : List (String × PassFailure) :=
  entries.filterMap fun e => e.failure.map fun f => (e.id, f)

def result (entries : List (Entry α)) : List (Placed α) :=
  (entries.getLast?.map Entry.result).getD []

-- Markers need a vertex to sit on, so a path that has lost all its drawing is closed.
def keepVertex (job : Job α) (cs : List (Command α)) : List (Command α) :=
  if job.style.hasMarker && hasDrawing job.path && !hasDrawing cs then
    cs ++ [{ body := .close }]
  else cs

variable [Scalar α]

def finish (job : Job α) (ps : List (Placed α)) : Except Fault (List (Command α)) := do
  let error ← job.options.error
  (keepVertex job (Placed.commands ps)).mapM (job.options.roundCommand error)

inductive Error where
  | registry (cause : RegistryError)
  | fault (cause : Fault)
  deriving DecidableEq, Repr, Inhabited

-- `none` where the input is kept: when it is empty and when a pass failed.
def optimize (r : Registry (Action α)) (job : Job α) :
    Except Error (Option (List (Command α))) :=
  if job.path.isEmpty then .ok none
  else
    match run r job with
    | .error cause => .error (.registry cause)
    | .ok entries =>
      if !(failures entries).isEmpty then .ok none
      else
        match finish job (result entries) with
        | .ok cs => .ok (some cs)
        | .error cause => .error (.fault cause)

def relative : Action α :=
  action fun job _ => .ok (rebase job.options.flags.forceAbsolutePath job.path)

def filter (fitter : ArcFitter α) : Action α :=
  action fun job ps => filterCommands fitter job.options job.style ps

def mixed : Action α :=
  action fun job ps => chooseForms job.options ps

def cleanup : Action α :=
  action fun job ps => .ok (PathData.cleanup job.options.flags.negativeExtraSpace ps)

def passes (fitter : ArcFitter α) : List (Pass (Action α)) :=
  [ { id := "relative", stage := .normalize, dependencies := [], tags := [], run := relative },
    { id := "filter", stage := .optimize, dependencies := ["relative"], tags := []
      run := filter fitter },
    { id := "mixed", stage := .spelling, dependencies := ["filter"], tags := [absoluteTag]
      run := mixed },
    { id := "cleanup", stage := .cleanup, dependencies := ["filter"], tags := []
      run := cleanup } ]

def registry (fitter : ArcFitter α) : Registry (Action α) where
  passes := passes fitter
  ids_nodup := by
    have distinct : ["relative", "filter", "mixed", "cleanup"].Nodup := by decide
    exact distinct

end Pipeline

def optimize {α : Type} [Scalar α] (fitter : ArcFitter α) (job : Job α) :
    Except Pipeline.Error (Option (List (Command α))) :=
  Pipeline.optimize (Pipeline.registry fitter) job

-- The optimised text. Text that cannot be read, or that would not get shorter or stay as long, is
-- kept.
def optimizeText {α : Type} [Scalar α] (fitter : ArcFitter α) (options : Options α) (style : Style)
    (text : List Char) : Except Pipeline.Error (List Char) :=
  match parse (α := α) text with
  | .error _ => .ok text
  | .ok path =>
    match optimize fitter { path, options, style } with
    | .error e => .error e
    | .ok none => .ok text
    | .ok (some cs) =>
      let shorter := print options.flags.negativeExtraSpace cs
      .ok (if text.length < shorter.length then text else shorter)

end PathData
