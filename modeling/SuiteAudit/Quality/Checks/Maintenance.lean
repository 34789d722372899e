import SuiteAudit.Quality.Standard
import SuiteAudit.Source.Block
import SuiteAudit.Source.Duplicate

/-! # Checks of maintainability

Test cases are short, lines are not repeated, values have names and selectors are stable.
-/

namespace SuiteAudit.Checks

/-! ### Length -/

def lengthId : Text := "test-maintain-001"

/-- The lines that a test case may have. -/
def maxCaseLines : Nat := 50

def longCase (b : Block) : Violation where
  standardId := lengthId
  line := b.startLine
  message := "Test is too long (" ++ Text.ofNat b.lineCount ++ " lines)"
  severity := .warning
  suggestion? := some "Split the test into smaller independent cases"

/-- No test case is longer than the limit. -/
def caseLength : Check := fun content _ =>
  .ok (((casesOf content).filter fun b => maxCaseLines < b.lineCount).map longCase)

/-! ### Repetition -/

def duplicateId : Text := "test-maintain-002"

/-- The occurrences from which a line counts as repeated. -/
def minRepetitions : Nat := 3

def repeatedLine (d : DuplicateLine) : Violation where
  standardId := duplicateId
  line := d.lineNumbers.headD 0
  message := "Duplicated line (" ++ Text.ofNat d.occurrences ++ " occurrences)"
  severity := .warning
  suggestion? := some "Extract a shared helper or constant"

/-- No line occurs three times. -/
def duplicateCode : Check := fun content _ =>
  .ok ((DuplicateLine.find content minRepetitions DuplicateLine.defaultMinLength).map repeatedLine)

/-! ### Values -/

def hardCodedId : Text := "test-maintain-003"

/-- The fixed wait that is allowed, in milliseconds. -/
def maxFixedWait : Nat := 1000

/-- The fixed waits in a text that are longer than allowed, with their lines. -/
def longWaits (content : Text) : Except DigitLimit (List (Nat × Nat)) := do
  let waits ← (Literal.timeoutCall.findAll content).mapM fun hit => do
    return (Text.lineAt content hit.offset, ← readNumeral (hit.group 1))
  return waits.filter fun p => maxFixedWait < p.2

def hardCodedWait (line ms : Nat) : Violation where
  standardId := hardCodedId
  line := line
  message := "Hard-coded timeout " ++ Text.ofNat ms ++ "ms"
  severity := .info
  suggestion? := some "Use a named constant"
  example? := some {
    bad := "waitForTimeout(" ++ Text.ofNat ms ++ ")"
    good := Text.joinLines
      ["const ANALYSIS_TIMEOUT = 5000;", "waitForTimeout(ANALYSIS_TIMEOUT)"] }

def hardCodedData (line : Nat) : Violation where
  standardId := hardCodedId
  line := line
  message := "Hard-coded test data"
  severity := .info
  suggestion? := some "Move test data into constants or a fixture file"

/-- Long waits and test data have names. -/
def hardCodedValues : Check := fun content _ => do
  let waits ← (longWaits content).mapError .digitLimit
  let data := (Literal.longText.findAll content).filter fun hit =>
    Literal.looksLikeTestData (hit.group 2)
  return waits.map (fun p => hardCodedWait p.1 p.2) ++
    data.map fun hit => hardCodedData (Text.lineAt content hit.offset)

/-! ### Selectors -/

def selectorId : Text := "test-maintain-004"

/-- A stretch without quotes. -/
def quoteFree : Pattern := .run true 0 (Pattern.notAmong "'\"\x60")

/-- A locator whose selector has three parts. -/
def deepLocator : Pattern :=
  .chain [.lit "page.locator(", .blanks, .one (Pattern.among "'\"\x60"), quoteFree, .blanks1,
    quoteFree, .blanks1, quoteFree, .one (Pattern.among "'\"\x60"), .blanks, .lit ")"]

def brittleSelector (line : Nat) : Violation where
  standardId := selectorId
  line := line
  message := "Complex CSS selector is likely to be brittle"
  severity := .warning
  suggestion? := some "Prefer data-testid or a simpler selector"
  example? := some {
    bad := "page.locator('div.container > ul.list > li:nth-child(2)')"
    good := "page.getByTestId('second-list-item')" }

def fewTestIds : Violation where
  standardId := selectorId
  line := 1
  message := "Prefer data-testid selectors over raw locators"
  severity := .info
  suggestion? := some "Add data-testid attributes to key elements"

/-- Selectors are simple, and at least a third of them are test ids. -/
def selectorQuality : Check := fun content _ =>
  .ok <| ((deepLocator.findAll content).map fun hit =>
      brittleSelector (Text.lineAt content hit.offset)) ++
    (if Text.countOf "getByTestId(" content * 2 < Text.countOf "page.locator(" content then
      [fewTestIds] else [])

end SuiteAudit.Checks
