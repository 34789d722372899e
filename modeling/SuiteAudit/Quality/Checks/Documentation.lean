import SuiteAudit.Quality.Standard
import SuiteAudit.Source.Comment

/-! # Checks of comments

A test file opens with a comment on its purpose, and comments explain what is not obvious in it.
-/

namespace SuiteAudit.Checks

/-! ### The header -/

def headerId : Text := "test-docs-001"

/-- The lines in which a block comment may open the file. -/
def docBlockLines : Nat := 10

/-- The lines in which a line comment may open the file. -/
def lineCommentLines : Nat := 5

def headerExample : CodeExample where
  bad := "import \x7b test, expect \x7d from '@playwright/test';"
  good := Text.joinLines [
    "/**",
    " * User authentication e2e tests",
    " *",
    " * Covers login, registration and logout.",
    " */",
    "import \x7b test, expect \x7d from '@playwright/test';"]

def missingHeader : Violation where
  standardId := headerId
  line := 1
  message := "Test file has no header comment describing its purpose"
  severity := .warning
  suggestion? := some "Add a header comment describing the suite's purpose and scope"
  example? := some headerExample

/-- A comment stands near the start of the file. -/
def fileHeader : Check := fun content _ =>
  let lines := Text.lines content
  let hasBlock := (lines.take docBlockLines).any fun line => Text.contains line "/**"
  let hasLine := (lines.take lineCommentLines).any fun line => Text.startsWith (Text.trim line) "//"
  .ok (if hasBlock || hasLine then [] else [missingHeader])

/-! ### Complex logic -/

def complexLogicId : Text := "test-docs-002"

def unexplained (finding : CommentFinding) : Violation where
  standardId := complexLogicId
  line := finding.line
  message := finding.kind.description ++ " should have an explanatory comment"
  severity := .info
  suggestion? := some "Add a comment explaining the purpose and expected result"

/-- Lines that are not obvious have a comment near. -/
def complexLogicComments : Check := fun content _ => .ok ((commentFindings content).map unexplained)

/-! ### Test data -/

def testDataId : Text := "test-docs-003"

/-- The declaration of an object whose name mentions data. -/
def dataObject : Pattern :=
  .chain [.lit "const", .blanks1, .run true 0 Text.isWordChar, .one (Pattern.among "Dd"),
    .lit "ata", .run true 0 Text.isWordChar, .blanks, .lit "=", .blanks, .lit "\x7b"]

def undocumentedData (line : Nat) : Violation where
  standardId := testDataId
  line := line
  message := "Test data object has no explanatory comment"
  severity := .info
  suggestion? := some "Describe what the test data is used for"

/-- Objects with test data have a comment near. -/
def testDataDocumentation : Check := fun content _ =>
  let lines := Text.lines content
  let found := (dataObject.findAll content).map fun hit => Text.lineAt content hit.offset
  .ok ((found.filter fun line => !hasNearbyComment lines (line - 1) commentWindow).map
    undocumentedData)

end SuiteAudit.Checks
