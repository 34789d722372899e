import SuiteAudit.Quality.Standard
import SuiteAudit.Source.Block

/-! # Checks of names

Test cases say what they verify, variables say what they hold, and a page object is called after its
class.
-/

namespace SuiteAudit.Checks

/-! ### Descriptions of test cases -/

def descriptionId : Text := "test-naming-001"

/-- A test case with its quoted description, group 1, in which no quote occurs. -/
def describedCase : Pattern :=
  .chain [.wordEdge, .words ["test", "it"],
    .optional (.chain [.lit ".", .words ["only", "skip", "fixme", "slow"]]), .lit "(", .blanks,
    .one (Pattern.among Opening.quoteMarks),
    .group 1 (.run true 1 (Pattern.notAmong Opening.quoteMarks)),
    .one (Pattern.among Opening.quoteMarks)]

/-- The least length of a description. -/
def minDescriptionLength : Nat := 10

/-- Words that say nothing about what is verified. -/
def vagueWords : List Text := ["test", "check", "verify", "should work"]

def shortDescription (line : Nat) : Violation where
  standardId := descriptionId
  line := line
  message := "Test description is too short to state its purpose"
  severity := .warning
  suggestion? := some "Describe the expected behaviour in full"

def vagueDescription (line : Nat) : Violation where
  standardId := descriptionId
  line := line
  message := "Test description uses vague wording"
  severity := .info
  suggestion? := some "State the concrete behaviour, e.g. 'redirects to home after login'"

/-- What is wrong with one description. -/
def descriptionViolations (line : Nat) (description : Text) : List Violation :=
  (if description.length < minDescriptionLength then [shortDescription line] else []) ++
    (if vagueWords.any (Text.contains (Text.lower description)) then [vagueDescription line]
      else [])

/-- Descriptions are long enough and not vague. -/
def caseDescriptions : Check := fun content _ =>
  .ok ((describedCase.findAll content).flatMap fun hit =>
    descriptionViolations (Text.lineAt content hit.offset) (hit.group 1))

/-! ### Variables -/

def variableId : Text := "test-naming-002"

def isAsciiLetter (c : Char) : Bool := c.isAlpha

/-- A value, a type or the end of the declaration comes next. -/
def declarationGoesOn : Pattern :=
  .here fun _ rest => (Text.trimStart rest).head?.any (Pattern.among "=:;")

/-- A declaration of a variable with one letter, group 1. -/
def singleLetter : Pattern :=
  .chain [.wordEdge, .words ["const", "let", "var"], .blanks1, .group 1 (.one isAsciiLetter),
    .wordEdge, declarationGoesOn]

/-- Names that could stand for anything, and better ones. -/
def poorNames : List (Text × Text) :=
  [("data", "testData, userData, petData"), ("temp", "temporary, tempResult"),
   ("res", "result, response")]

/-- A declaration of a variable with such a name, group 1. -/
def poorName : Pattern :=
  .chain [.wordEdge, .words ["const", "let", "var"], .blanks1,
    .group 1 (.words (poorNames.map (·.1))), .wordEdge]

def singleLetterName (line : Nat) (name : Text) : Violation where
  standardId := variableId
  line := line
  message := "Single-letter variable name " ++ Text.quoted name
  severity := .warning
  suggestion? := some "Use a meaningful variable name"

def unspecificName (line : Nat) (name : Text) : Violation where
  standardId := variableId
  line := line
  message := "Variable name " ++ Text.quoted name ++ " is not specific"
  severity := .info
  suggestion? :=
    some ("Consider a more specific name: " ++ (poorNames.lookup name).getD [])

/-- Variables have more than one letter and a name that is specific. -/
def variableNames : Check := fun content _ =>
  .ok <| ((singleLetter.findAll content).map fun hit =>
      singleLetterName (Text.lineAt content hit.offset) (hit.group 1)) ++
    (poorName.findAll content).map fun hit =>
      unspecificName (Text.lineAt content hit.offset) (hit.group 1)

/-! ### Page objects -/

def pageObjectId : Text := "test-naming-003"

/-- A variable, group 1, for a new object of a page class, group 2. -/
def pageObject : Pattern :=
  .chain [.wordEdge, .group 1 .word, .blanks, .lit "=", .blanks, .lit "new", .blanks1,
    .group 2 (.seq .word (.lit "Page")), .wordEdge]

/-- The name of the variable that goes with a class. -/
def variableFor : Text → Text
  | [] => []
  | c :: rest => Text.lower [c] ++ rest

def misnamedPageObject (line : Nat) (written expected : Text) : Violation where
  standardId := pageObjectId
  line := line
  message := "Page object variable should match its class name"
  severity := .info
  suggestion? := some ("Rename " ++ Text.quoted written ++ " to " ++ Text.quoted expected)

/-- The variable for a page object is called after its class. -/
def pageObjectNames : Check := fun content _ =>
  .ok ((pageObject.findAll content).filterMap fun hit =>
    let expected := variableFor (hit.group 2)
    if hit.group 1 = expected then none
    else some (misnamedPageObject (Text.lineAt content hit.offset) (hit.group 1) expected))

end SuiteAudit.Checks
