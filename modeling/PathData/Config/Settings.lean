import PathData.Config.Params

namespace PathData

structure Settings where
  logLevel : String := "warning"
  floatPrecision : Int := 3
  deriving DecidableEq, Repr, Inhabited

namespace Settings

def lower (s : String) : String :=
  String.ofList (s.toList.map Char.toLower)

-- The dotless i and the long s are upper-cased to ASCII letters as well.
def upper (s : String) : String :=
  String.ofList (s.toList.map fun c => if c = 'ı' then 'I' else if c = 'ſ' then 'S' else c.toUpper)

-- The last variable of a name counts, in whatever case it is written.
def valueOf? (environment : List (String × String)) (name : String) : Option String :=
  (environment.reverse.find? fun v => lower v.1 = name).map Prod.snd

def load (program : String) (environment : List (String × String)) :
    Except (List Params.Problem) Settings :=
  let level := (valueOf? environment (program ++ "_log_level")).getD ({} : Settings).logLevel
  let key := program ++ "_float_precision"
  match valueOf? environment key with
  | none => .ok { logLevel := level }
  | some text =>
    match Value.intOfText text with
    | .ok precision => .ok { logLevel := level, floatPrecision := precision }
    | .error cause => .error [⟨[key], cause⟩]

def levels : List (String × Nat) :=
  [("CRITICAL", 50), ("FATAL", 50), ("ERROR", 40), ("WARNING", 30), ("WARN", 30), ("INFO", 20),
   ("DEBUG", 10), ("NOTSET", 0)]

-- The level to log from: the one that is asked for, else that of the settings. A name that is not
-- known counts as a warning.
def level (s : Settings) (asked : Option String) : Nat :=
  let name := match asked with
    | some name => if name.isEmpty then s.logLevel else name
    | none => s.logLevel
  (levels.lookup (upper name)).getD 30

def logFormat : String := "%(asctime)s %(name)s %(levelname)s %(message)s"

end Settings
end PathData
