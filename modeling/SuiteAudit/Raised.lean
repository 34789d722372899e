import SuiteAudit.Payload.Display

/-! # Errors that a worker raises

An error has a kind and arguments.  Its message is its only argument, or all of them in parentheses;
an error about a key shows the key quoted.
-/

namespace SuiteAudit

inductive RaisedKind where
  | value
  | key
  | runtime
  deriving DecidableEq, Repr

namespace RaisedKind

def all : List RaisedKind := [value, key, runtime]

def name : RaisedKind → Text
  | value => "ValueError"
  | key => "KeyError"
  | runtime => "RuntimeError"

def ofName? (t : Text) : Option RaisedKind := all.find? (·.name = t)

end RaisedKind

structure Raised where
  kind : RaisedKind
  arguments : List Json

namespace Raised

def message (r : Raised) : Text :=
  match r.arguments with
  | [] => []
  | [v] => if r.kind = .key then v.display else v.displayBare
  | vs => "(" ++ Text.join ", " (vs.map Json.display) ++ ")"

/-- The message, or the name of the kind when there is none. -/
def description (r : Raised) : Text := if r.message.isEmpty then r.kind.name else r.message

end Raised
end SuiteAudit
