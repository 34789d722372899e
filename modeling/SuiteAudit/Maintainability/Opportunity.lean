import SuiteAudit.Maintainability.Metrics

/-! # Refactoring opportunities

Each file offers an opportunity of a kind when its metrics meet the condition of that kind.  Over
many files the opportunities are ranked by impact; equal impact keeps the order of the files.
-/

namespace SuiteAudit

inductive OpportunityKind where
  | extractMethod
  | extractConstant
  | simplifyLogic
  | improveNaming
  | addComments
  deriving DecidableEq, Repr

namespace OpportunityKind

/-- The kinds in the order in which a file is looked at for them. -/
def all : List OpportunityKind :=
  [extractMethod, extractConstant, simplifyLogic, improveNaming, addComments]

def name : OpportunityKind → Text
  | extractMethod => "extract-method"
  | extractConstant => "extract-constant"
  | simplifyLogic => "simplify-logic"
  | improveNaming => "improve-naming"
  | addComments => "add-comments"

end OpportunityKind

/-- Code before and after a change. -/
structure BeforeAfter where
  before : Text
  after : Text
  deriving DecidableEq

structure Opportunity where
  kind : OpportunityKind
  testFile : Text
  description : Text
  estimatedEffort : Text
  impact : Level
  example? : Option BeforeAfter := none
  deriving DecidableEq

namespace Opportunity

def methodExample : BeforeAfter where
  before := Text.joinLines [
    "test('long test', async (\x7b page \x7d) => \x7b",
    "  // 50+ lines of test code",
    "  await page.goto('/');",
    "  await page.fill('#username', 'test');",
    "  await page.fill('#password', 'test');",
    "  await page.click('#login');",
    "  // ... more code",
    "\x7d);"]
  after := Text.joinLines [
    "test('user login flow', async (\x7b page \x7d) => \x7b",
    "  await navigateToLoginPage(page);",
    "  await performLogin(page, 'test', 'test');",
    "  await verifyLoginSuccess(page);",
    "\x7d);"]

def constantExample : BeforeAfter where
  before := Text.joinLines [
    "await page.waitForTimeout(5000);",
    "await page.fill('#username', 'testuser@example.com');"]
  after := Text.joinLines [
    "const LONG_TIMEOUT = 5000;",
    "const TEST_EMAIL = 'testuser@example.com';",
    "",
    "await page.waitForTimeout(LONG_TIMEOUT);",
    "await page.fill('#username', TEST_EMAIL);"]

/-- Whether the metrics of a file meet the condition of a kind. -/
def offered (m : Metrics) (thresholds : Thresholds) : OpportunityKind → Bool
  | .extractMethod => thresholds.maxTestLength < m.averageTestLength
  | .extractConstant => 3 < m.countKind .hardCodedValues
  | .simplifyLogic => Extended.ofWhole 7 < m.complexityScore
  | .improveNaming => 2 < m.countKind .poorNaming
  | .addComments => 5 < m.countKind .missingComments

/-- The opportunity of a kind in a file. -/
def inFile (path : Text) : OpportunityKind → Opportunity
  | .extractMethod =>
    ⟨.extractMethod, path, "Split long tests into helper methods", "2-4 hours", .high,
      some methodExample⟩
  | .extractConstant =>
    ⟨.extractConstant, path, "Extract hard-coded values into constants", "1-2 hours", .medium,
      some constantExample⟩
  | .simplifyLogic =>
    ⟨.simplifyLogic, path, "Simplify test logic with page objects and helpers", "3-6 hours", .high,
      none⟩
  | .improveNaming =>
    ⟨.improveNaming, path, "Rename vague variables", "1-2 hours", .medium, none⟩
  | .addComments =>
    ⟨.addComments, path, "Add explanatory comments to complex logic", "1 hour", .low, none⟩

/-- The opportunities of a file in the order of their kinds. -/
def ofMetrics (thresholds : Thresholds) (m : Metrics) : List Opportunity :=
  (OpportunityKind.all.filter (offered m thresholds)).map (inFile m.testFile)

/-- The opportunities of some files, the highest impact first. -/
def ranked (files : List Metrics) (thresholds : Thresholds) : List Opportunity :=
  (files.flatMap (ofMetrics thresholds)).mergeSort fun a b => b.impact.rank ≤ a.impact.rank

end Opportunity
end SuiteAudit
