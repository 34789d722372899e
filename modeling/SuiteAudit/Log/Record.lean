import SuiteAudit.Log.Setup
import SuiteAudit.Log.Template
import SuiteAudit.Table

/-! # Records of the log

A record is written as a line for people or as an object for programs.  Some attributes of a record
are carried over into the object, and a duration is shown behind the message.  An attribute with the
name of one that every record has takes its place.
-/

namespace SuiteAudit

/-- Why a record cannot be written. -/
inductive LogError where
  | template (e : TemplateError)
  /-- The duration is a text. -/
  | durationText
  /-- A value of this type cannot be fitted into the line. -/
  | unformattable (typeName : Text)
  /-- The level or its name is a value with parts. -/
  | unhashable (typeName : Text)
  | number (fault : NumberFault)
  deriving DecidableEq

def LogError.message : LogError → Text
  | template e => e.message
  | durationText => "Unknown format code 'f' for object of type 'str'"
  | unformattable typeName => "unsupported format string passed to " ++ typeName ++ ".__format__"
  | unhashable typeName => "unhashable type: '" ++ typeName ++ "'"
  | number fault => fault.message

structure LogRecord where
  logger : Text
  /-- A number, as a rule. -/
  level : Json
  template : Text
  values : List Json := []
  attributes : Table Text Json := []
  moduleName : Text
  function : Text
  line : Nat

namespace LogLevel

/-- The level of a value that is its number. -/
def ofValue? : Json → Option LogLevel
  | .int n => ofNumber? n
  | .real (.infinite _) | .real .undefined => none
  | .real x => if x.value.den = 1 then ofNumber? x.value.num else none
  | .bool b => if b then none else some notSet
  | _ => none

/-- The name of the level with a number, or the number of the level with a name. -/
def counterpart? (v : Json) : Option Json :=
  match v, ofValue? v with
  | .str name, _ => (ofName? name).map fun l => .int l.number
  | _, some l => some (.str l.name)
  | _, none => none

end LogLevel

namespace LogRecord

/-! ### Attributes -/

/-- An attribute that a record has, or what stands there by itself. -/
def attributeOr (r : LogRecord) (name : Text) (own : Json) : Json :=
  (r.attributes.get? name).getD own

/-- An attribute that is there and not null. -/
def attribute? (r : LogRecord) (name : Text) : Option Json :=
  match r.attributeOr name .null with
  | .null => none
  | v => some v

/-- The name of the level; a number without a level of its own is shown. -/
def levelName (r : LogRecord) : Except LogError Json :=
  match r.level with
  | .arr _ | .obj _ => .error (.unhashable r.level.typeName)
  | v =>
    let own := (LogLevel.counterpart? v).getD (.str ("Level " ++ v.displayBare))
    .ok (r.attributeOr "levelname" own)

def loggerName (r : LogRecord) : Json := r.attributeOr "name" (.str r.logger)

/-- What the places of the template are filled from, unless the template stands as it is. -/
def supply? (r : LogRecord) : Option Template.Supply :=
  match r.attributes.get? "args".toList with
  | some v => if v.isVoid then none else some (.ofValue v)
  | none => if r.values.isEmpty then none else some (.ofValues r.values)

/-- The message; without values the template stands as it is. -/
def message (r : LogRecord) : Except LogError Text :=
  let template := (r.attributeOr "msg" (.str r.template)).displayBare
  match r.supply? with
  | none => .ok template
  | some supply => (Template.expand template supply).mapError .template

/-- The attributes that are carried over. -/
def carriedOver : List Text := ["file_path", "stage", "standard_id", "duration_ms"]

/-- A record as an object, the time apart. -/
def toJson (r : LogRecord) : Except LogError Json := do
  let levelName ← r.levelName
  let message ← r.message
  let own : List (Text × Json) :=
    [("level", levelName), ("logger", r.loggerName), ("message", .str message),
      ("module", r.attributeOr "module" (.str r.moduleName)),
      ("function", r.attributeOr "funcName" (.str r.function)),
      ("line", r.attributeOr "lineno" (.nat r.line))]
  return .obj (own ++ carriedOver.filterMap fun name => (r.attribute? name).map fun v => (name, v))

/-! ### Lines for people -/

/-- The code that starts the colour of a level. -/
def colours : List (Text × Text) :=
  [("DEBUG", "\x1b[36m"), ("INFO", "\x1b[32m"), ("WARNING", "\x1b[33m"), ("ERROR", "\x1b[31m"),
   ("CRITICAL", "\x1b[35m")]

/-- The code that ends a colour. -/
def colourEnd : Text := "\x1b[0m"

/-- The code that starts the colour of a level by its name, if it has one. -/
def colourOf? (levelName : Json) : Except LogError (Option Text) :=
  match levelName with
  | .str name => .ok (colours.lookup name)
  | .arr _ | .obj _ => .error (.unhashable levelName.typeName)
  | _ => .ok none

/-- The name of a level, filled up to eight characters. -/
def levelText (levelName : Json) : Except LogError Text :=
  let filled (t : Text) : Text := t ++ List.replicate (8 - t.length) ' '
  match levelName with
  | .bool b => .ok (filled (if b then "1" else "0"))
  | .null | .arr _ | .obj _ => .error (.unformattable levelName.typeName)
  | v => .ok (filled v.displayBare)

/-- A duration in whole milliseconds, in brackets. -/
def durationText (r : LogRecord) : Except LogError Text :=
  match r.attribute? "duration_ms" with
  | none => .ok []
  | some (.str _) => .error .durationText
  | some v =>
    match Template.number? v with
    | some (.ok x) => .ok (" [" ++ x.fixed 0 ++ "ms]")
    | some (.error fault) => .error (.number fault)
    | none => .error (.unformattable v.typeName)

/-- A record as a line with the time of day. -/
def readable (r : LogRecord) (time : Text) (coloured : Bool) : Except LogError Text := do
  let levelName ← r.levelName
  let colour? ← if coloured then colourOf? levelName else .ok none
  let duration ← r.durationText
  let message ← r.message
  let level ← levelText levelName
  let after : Text := if colour?.isSome then colourEnd else []
  return colour?.getD [] ++ time ++ " " ++ level ++ after ++ " " ++ r.loggerName.displayBare ++
    ": " ++ message ++ duration

end LogRecord
end SuiteAudit
