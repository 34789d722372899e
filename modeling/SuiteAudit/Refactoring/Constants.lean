import SuiteAudit.Refactoring.Change
import SuiteAudit.Refactoring.Context
import SuiteAudit.Source.Block
import SuiteAudit.Source.Literal

/-! # Named constants

Fixed waits and test data are given names, a value always the same one.  The names take the place of
the values, and the lines that declare them go behind the imports.
-/

namespace SuiteAudit

/-- The names given so far: the context, all names taken, and for this file the names of its values
and the changes. -/
structure Extraction where
  context : Context
  taken : List Text
  timeouts : Table Text Text := []
  data : Table Text Text := []
  changes : List Change := []

/-- A numeral could not be read; the context holds the names given before. -/
structure Interrupted where
  cause : DigitLimit
  context : Context

namespace Extraction

def start (context : Context) : Extraction := { context := context, taken := context.names }

/-! ### Fixed waits -/

/-- The name of a fixed wait, which is the one of the context if it has one. -/
def nameTimeout (e : Extraction) (value : Text) (ms : Nat) : Text × Extraction :=
  match e.context.timeouts.get? value with
  | some name => (name, e)
  | none =>
    let name := unusedName (Literal.timeoutName ms) e.taken
    (name, { e with
      context := { e.context with timeouts := e.context.timeouts.set value name }
      taken := name :: e.taken })

def timeoutChange (content : Text) (hit : Hit) (name : Text) : Change where
  kind := .extractConstant
  line := Text.lineAt content hit.offset
  description := "Extract timeout constant " ++ hit.group 1 ++ "ms"
  before := hit.text
  after := "waitForTimeout(" ++ name ++ ")"

/-- Takes in a fixed wait; short ones and those seen before need nothing. -/
def addTimeout (content : Text) (e : Extraction) (hit : Hit) : Except Interrupted Extraction :=
  let value := hit.group 1
  match readNumeral value with
  | .error cause => .error ⟨cause, e.context⟩
  | .ok ms =>
    if ms < Literal.minNamedTimeout ∨ e.timeouts.has value then .ok e
    else
      let (name, e) := e.nameTimeout value ms
      .ok { e with
        timeouts := e.timeouts.set value name
        changes := e.changes ++ [timeoutChange content hit name] }

/-! ### Test data -/

/-- The name of a piece of test data, which is the one of the context if it has one. -/
def nameData (e : Extraction) (value : Text) : Text × Extraction :=
  match e.context.data.get? value with
  | some name => (name, e)
  | none =>
    let name := unusedName (Literal.dataName value) e.taken
    (name, { e with
      context := { e.context with data := e.context.data.set value name }
      taken := name :: e.taken })

def dataChange (content : Text) (hit : Hit) (name : Text) : Change where
  kind := .extractConstant
  line := Text.lineAt content hit.offset
  description := "Extract test data constant"
  before := hit.text
  after := name

/-- Takes in a long quoted text; one that is no test data or was seen before needs nothing. -/
def addData (content : Text) (e : Extraction) (hit : Hit) : Extraction :=
  let value := hit.group 2
  if !Literal.looksLikeTestData value || e.data.has value then e
  else
    let (name, e) := e.nameData value
    { e with
      data := e.data.set value name
      changes := e.changes ++ [dataChange content hit name] }

/-- The names for all values of a file. -/
def ofText (content : Text) (context : Context) : Except Interrupted Extraction := do
  let e ← (Literal.timeoutCall.findAll content).foldlM (addTimeout content) (start context)
  return (Literal.longText.findAll content).foldl (addData content) e

/-! ### The new text -/

/-- A fixed wait with the name of its value, if that has one. -/
def replaceTimeout (timeouts : Table Text Text) (hit : Hit) : Text :=
  match timeouts.get? (hit.group 1) with
  | some name => "waitForTimeout(" ++ name ++ ")"
  | none => hit.text

/-- A quoted text or the name that it has. -/
def replaceData (data : Table Text Text) (hit : Hit) : Text :=
  (data.get? (hit.group 2)).getD hit.text

/-- A text with names in place of the values. -/
def replaceValues (e : Extraction) (content : Text) : Text :=
  Literal.longText.replaceAll (replaceData e.data)
    (Literal.timeoutCall.replaceAll (replaceTimeout e.timeouts) content)

/-- The start of an import. -/
def importStart : Pattern := .chain [.textStart, .blanks, .lit "import", .wordEdge]

/-- Whether an import ends on a line. -/
def endsImport (line : Text) : Bool :=
  Text.contains line " from " || Text.endsWith (Text.trimEnd line) ";" ||
    Text.contains line "from '"

/-- Whether a test case or a suite begins on a line. -/
def opensTest (line : Text) : Bool := Opening.case.isOn line || Opening.suite.isOn line

/-- The number of lines up to the last end of an import before the first test, among lines that
follow `index` others; `inImport` says whether an import has begun. -/
def importEndFrom : Nat → Bool → Nat → List Text → Nat
  | _, _, found, [] => found
  | index, inImport, found, line :: rest =>
    if opensTest line then found
    else
      let inImport := inImport || (importStart.matchStart line).isSome
      if inImport && endsImport line then importEndFrom (index + 1) false (index + 1) rest
      else importEndFrom (index + 1) inImport found rest

/-- The number of lines that the imports at the start take up. -/
def importEnd (lines : List Text) : Nat := importEndFrom 0 false 0 lines

/-- The lines that declare the names of a file, with a blank line in front when imports come
before. -/
def definitionBlock (e : Extraction) (quotes : Quotes) (insertAt : Nat) : List Text :=
  let c : Context := { timeouts := e.timeouts, data := e.data }
  (if 0 < insertAt then [[]] else []) ++ Text.lines (c.definitions quotes)

/-- The text of a file with names in place of its values, and the names declared. -/
def newText (e : Extraction) (content : Text) : Text :=
  if e.timeouts.isEmpty && e.data.isEmpty then content
  else
    let lines := Text.lines (e.replaceValues content)
    let at' := importEnd lines
    Text.joinLines
      (lines.take at' ++ e.definitionBlock (CodeStyle.quotesOf content) at' ++ lines.drop at')

end Extraction
end SuiteAudit
