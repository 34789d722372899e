import SuiteAudit.Text.CaseMap
import SuiteAudit.Text.Quoted

/-! # Set-up of the log

The log has a level below which records are dropped, and a format.  Both are named in the call, or
else in the environment, or else have a default; letters may be of either case.  An unknown level
counts as the default, an unknown format is an error.
-/

namespace SuiteAudit

inductive LogLevel where
  | notSet
  | debug
  | info
  | warning
  | error
  | critical
  deriving DecidableEq, Repr

namespace LogLevel

def all : List LogLevel := [notSet, debug, info, warning, error, critical]

def name : LogLevel → Text
  | notSet => "NOTSET"
  | debug => "DEBUG"
  | info => "INFO"
  | warning => "WARNING"
  | error => "ERROR"
  | critical => "CRITICAL"

/-- The number of a level; a higher level weighs more. -/
def number : LogLevel → Int
  | notSet => 0
  | debug => 10
  | info => 20
  | warning => 30
  | error => 40
  | critical => 50

/-- Other names of levels. -/
def otherNames : List (Text × LogLevel) := [("WARN", warning), ("FATAL", critical)]

/-- The level of a name in capitals. -/
def ofName? (name : Text) : Option LogLevel :=
  ((all.find? fun l => l.name = name).map some).getD (otherNames.lookup name)

/-- The level of a number. -/
def ofNumber? (number : Int) : Option LogLevel := all.find? fun l => l.number = number

end LogLevel

inductive LogFormat where
  | readable
  | json
  deriving DecidableEq, Repr

namespace LogFormat

def all : List LogFormat := [readable, json]

def name : LogFormat → Text
  | readable => "readable"
  | json => "json"

def ofName? (name : Text) : Option LogFormat := all.find? fun f => f.name = name

/-- What is said about a name that no format has. -/
def unknown (name : Text) : Text :=
  "Unknown log format: " ++ Text.quoted name ++ " (expected one of (" ++
    Text.join ", " (all.map fun f => Text.quoted f.name) ++ "))"

end LogFormat

/-- The level and the format of the log. -/
structure LogSetup where
  level : LogLevel
  format : LogFormat
  deriving DecidableEq

/-- What the environment says about the log. -/
structure LogEnvironment where
  level? : Option Text := none
  format? : Option Text := none

namespace LogSetup

/-- The name under which records are written. -/
def logger : Text := "suite_doctor"

/-- The variables of the environment that set the level and the format. -/
def levelVariable : Text := "SUITE_DOCTOR_LOG_LEVEL"

def formatVariable : Text := "SUITE_DOCTOR_LOG_FORMAT"

/-- The first of two names that is there and not empty, or else the default. -/
def firstGiven (first? second? : Option Text) (other : Text) : Text :=
  match first?, second? with
  | some (c :: rest), _ => c :: rest
  | _, some (c :: rest) => c :: rest
  | _, _ => other

/-- The level of a name, in letters of either case. -/
def levelOf (name : Text) : LogLevel := (LogLevel.ofName? (Text.upper name)).getD .warning

/-- The set-up of a call, or the name of the format that does not exist. -/
def make (env : LogEnvironment) (level? format? : Option Text) : Except Text LogSetup :=
  let level := levelOf (firstGiven level? env.level? LogLevel.warning.name)
  let format := Text.lower (firstGiven format? env.format? LogFormat.readable.name)
  match LogFormat.ofName? format with
  | some f => .ok ⟨level, f⟩
  | none => .error format

end LogSetup
end SuiteAudit
