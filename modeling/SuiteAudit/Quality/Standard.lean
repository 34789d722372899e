import SuiteAudit.Source.Literal
import SuiteAudit.Text.Quoted

/-! # Quality standards

A standard is a named rule with a check of its own.  A check reads the text and the path of a file
and gives violations, or fails: a faulty check says nothing about the file.
-/

namespace SuiteAudit

inductive Severity where
  | error
  | warning
  | info
  deriving DecidableEq, Repr

namespace Severity

def all : List Severity := [error, warning, info]

def name : Severity → Text
  | error => "error"
  | warning => "warning"
  | info => "info"

/-- The points that a violation of this severity costs. -/
def weight : Severity → Nat
  | error => 10
  | warning => 5
  | info => 2

end Severity

inductive Category where
  | organization
  | naming
  | documentation
  | maintainability
  | performance
  deriving DecidableEq, Repr

namespace Category

def all : List Category := [organization, naming, documentation, maintainability, performance]

def name : Category → Text
  | organization => "structure"
  | naming => "naming"
  | documentation => "documentation"
  | maintainability => "maintainability"
  | performance => "performance"

def ofName? (t : Text) : Option Category := all.find? (·.name = t)

/-- What is said about a value, as it is shown, that is the name of no category. -/
def unknown (shown : Text) : Text := shown ++ " is not a valid StandardCategory"

end Category

/-- Code that breaks a rule and code that keeps it. -/
structure CodeExample where
  bad : Text
  good : Text
  deriving DecidableEq

structure Violation where
  standardId : Text
  line : Int
  message : Text
  severity : Severity
  suggestion? : Option Text := none
  example? : Option CodeExample := none
  deriving DecidableEq

/-- Why a check has no say about a file. -/
inductive CheckFault where
  /-- A numeral is too long to be read. -/
  | digitLimit (e : DigitLimit)
  /-- The check gave violations of other standards. -/
  | foreign (ids : List Text)
  /-- The check itself failed. -/
  | raised (message : Text)
  deriving DecidableEq

namespace CheckFault

/-- The entries of a list once each, in order. -/
def sortedOnce (ids : List Text) : List Text := (ids.mergeSort Text.le).eraseDups

def message : CheckFault → Text
  | digitLimit e => e.message
  | foreign ids =>
    "checker returned violations for other standards: [" ++
      Text.join ", " ((sortedOnce ids).map Text.quoted) ++ "]"
  | raised message => message

end CheckFault

/-- What a standard looks for in the text of a file with a path. -/
abbrev Check := Text → Text → Except CheckFault (List Violation)

structure Standard where
  id : Text
  name : Text
  description : Text
  category : Category
  severity : Severity
  check : Check

namespace Standard

/-- The violations of a file, none of another standard. -/
def run (s : Standard) (content path : Text) : Except CheckFault (List Violation) := do
  let violations ← s.check content path
  let foreign := (violations.map (·.standardId)).filter (· ≠ s.id)
  if foreign.isEmpty then return violations
  throw (.foreign foreign)

end Standard
end SuiteAudit
