import SuiteAudit.Quality.Standard
import SuiteAudit.Source.Block

/-! # Checks of the structure of a file

A test file imports its runner, holds test cases, groups them and shares no variables between them.
-/

namespace SuiteAudit.Checks

/-! ### The file as a whole -/

def fileStructureId : Text := "test-structure-001"

/-- An import at the start of a line. -/
def importLine : Pattern :=
  .chain [.lineStart, .run true 0 fun c => Text.isBlank c && c != '\n', .lit "import",
    .one Text.isBlank]

/-- The class whose data have to be cleaned up. -/
def dataManager : Text := "TestDataManager"

/-- The line of the first mention of a fixed text, if there is one. -/
def lineOfFirst? (content needle : Text) : Option Nat :=
  (Text.find? needle content).map (Text.lineAt content)

def missingImport : Violation where
  standardId := fileStructureId
  line := 1
  message := "Test file should import its test runner"
  severity := .error
  suggestion? := some "Add import \x7b test, expect \x7d from '@playwright/test';"

def missingCases : Violation where
  standardId := fileStructureId
  line := 1
  message := "Test file should contain at least one test case"
  severity := .error
  suggestion? := some "Add a test(...) block or remove the file"

def dataNotCleaned (line : Nat) : Violation where
  standardId := fileStructureId
  line := line
  message := "TestDataManager data should be cleaned up in afterEach"
  severity := .warning
  suggestion? := some "Add an afterEach hook that cleans up test data"

/-- The file imports its runner, has a test case and cleans up the data that it manages. -/
def fileStructure : Check := fun content _ =>
  let unmanaged :=
    if Text.contains content "afterEach" then none else lineOfFirst? content dataManager
  .ok <| (if importLine.occursIn content then [] else [missingImport]) ++
    (if countCaseCalls content = 0 then [missingCases] else []) ++
    (unmanaged.map dataNotCleaned).toList

/-! ### Grouping -/

def suiteGroupingId : Text := "test-structure-002"

/-- The test cases that may stand together without a suite. -/
def maxCasesWithoutSuite : Nat := 3

def groupingExample : CodeExample where
  bad := Text.joinLines ["test('test 1', () => \x7b\x7d);", "test('test 2', () => \x7b\x7d);"]
  good := Text.joinLines [
    "describe('feature', () => \x7b",
    "  test('test 1', () => \x7b\x7d);",
    "  test('test 2', () => \x7b\x7d);",
    "\x7d);"]

def ungroupedCases (count : Nat) : Violation where
  standardId := suiteGroupingId
  line := 1
  message := Text.ofNat count ++ " test cases are not grouped by any describe block"
  severity := .warning
  suggestion? := some "Group related tests with describe"
  example? := some groupingExample

/-- More than three test cases stand in a suite. -/
def suiteGrouping : Check := fun content _ =>
  let count := countCaseCalls content
  .ok (if count ≤ maxCasesWithoutSuite ∨ 0 < countSuiteCalls content then []
    else [ungroupedCases count])

/-! ### Shared state -/

def independenceId : Text := "test-structure-003"

/-- A variable that is declared without a value. -/
def bareLet : Pattern :=
  .chain [.wordEdge, .lit "let", .blanks1, .word,
    .optional (.chain [.blanks, .lit ":", .blanks, .word]), .blanks, .lit ";"]

/-- Whether a line lies in one of some suites. -/
def insideSuite (suites : List Suite) (line : Nat) : Bool :=
  suites.any fun s => s.block.startLine ≤ line && line ≤ s.block.endLine

def sharedVariable (line : Nat) : Violation where
  standardId := independenceId
  line := line
  message := "Module-level variable shares state between tests"
  severity := .warning
  suggestion? := some "Move the variable into a describe block or initialise it in beforeEach"

/-- No variable is declared without a value outside the suites. -/
def independence : Check := fun content _ =>
  let suites := suitesOf content
  let lines := (bareLet.findAll content).map fun hit => Text.lineAt content hit.offset
  .ok ((lines.filter fun line => !insideSuite suites line).map sharedVariable)

end SuiteAudit.Checks
