import SuiteAudit.Maintainability.Smell
import SuiteAudit.Number.Extended
import SuiteAudit.Source.Complexity

/-! # Maintainability metrics

The index of a file starts at 100 and loses points for size, long tests, complexity, duplication and
smells; it stays between 0 and 100.  `Metrics.ofText` measures a file, `Metrics.suggestionsFor` says
what should be done about it.
-/

namespace SuiteAudit

/-- The limits that an analysis is made against. -/
structure Thresholds where
  /-- Lines that a test case may have. -/
  maxTestLength : Int := 50
  /-- A file with a lower index needs attention. -/
  attentionIndex : Int := 60
  /-- A proposal is applied when its score is higher. -/
  applyMinImprovement : Extended := Binary64.ofNat 20
  deriving DecidableEq

/-- The points that the index loses for the size of a file. -/
def sizePenalty (linesOfCode : Int) : Binary64 :=
  if 500 < linesOfCode then .ofNat 20 else if 300 < linesOfCode then .ofNat 10 else .zero

/-- The points that the index loses for long test cases, from four fifths of the limit on. -/
def lengthPenalty (averageTestLength maxTestLength : Int) : Binary64 :=
  if maxTestLength < averageTestLength then .ofNat 15
  else if (Binary64.ofInt maxTestLength * Binary64.ofRatio 8 10).value < averageTestLength then
    .ofNat 8
  else .zero

/-- How many smells have a severity. -/
def countSeverity (severity : Level) (smells : List Smell) : Nat :=
  smells.countP fun s => s.severity = severity

/-- The maintainability index, with two decimal places. -/
def maintainabilityIndex (linesOfCode averageTestLength : Int) (complexityScore : Binary64)
    (duplicatedCode : Int) (smells : List Smell) (maxTestLength : Int) : Binary64 :=
  let index := Binary64.ofNat 100 - sizePenalty linesOfCode
    - lengthPenalty averageTestLength maxTestLength
    - complexityScore * .ofNat 2
    - .ofInt (duplicatedCode * 3)
    - .ofNat (countSeverity .high smells * 5)
    - .ofNat (countSeverity .medium smells * 3)
    - .ofNat (countSeverity .low smells)
  Binary64.roundTo 2 (Binary64.max .zero (Binary64.min (.ofNat 100) index))

/-- Whether the index can be had: the limit, where four fifths of it count, and the duplication have
to be near floating-point numbers. -/
def checkIndexNumbers (averageTestLength duplicatedCode maxTestLength : Int) :
    Except NumberFault Unit := do
  if averageTestLength ≤ maxTestLength then let _ ← Extended.ofInt maxTestLength
  let _ ← Extended.ofInt (duplicatedCode * 3)

/-- A complexity that is a whole number, twice of which has to be near a floating-point number. -/
def wholeComplexity (n : Int) : Except NumberFault Extended :=
  (Extended.ofInt (2 * n)).map fun _ => .ofWhole n

/-- The maintainability index for any complexity: none is left when it is infinite, and all of it
when it is infinite with a minus or no number. -/
def indexForComplexity (linesOfCode averageTestLength : Int) (complexityScore : Extended)
    (duplicatedCode : Int) (smells : List Smell) (maxTestLength : Int) :
    Except NumberFault Binary64 := do
  checkIndexNumbers averageTestLength duplicatedCode maxTestLength
  match complexityScore with
  | .infinite negative => return if negative then .ofNat 100 else .zero
  | .undefined => return .ofNat 100
  | x =>
    return maintainabilityIndex linesOfCode averageTestLength ⟨x.value⟩ duplicatedCode smells
      maxTestLength

/-- Why the metrics of a file cannot be had. -/
inductive MetricsFault where
  | digits (e : DigitLimit)
  | number (e : NumberFault)
  deriving DecidableEq

def MetricsFault.message : MetricsFault → Text
  | digits e => e.message
  | number e => e.message

structure Metrics where
  testFile : Text
  linesOfCode : Int := 0
  testCount : Int := 0
  averageTestLength : Int := 0
  duplicatedCode : Int := 0
  complexityScore : Extended := .zero
  maintainabilityIndex : Extended := Binary64.ofNat 100
  smells : List Smell := []
  suggestions : List Text := []
  deriving DecidableEq

/-- The lines of a file that are neither blank nor nothing but a comment. -/
def countCodeLines (lines : List Text) : Nat :=
  lines.countP fun line => !(Text.trim line).isEmpty && !isCommentLine (Text.trim line)

/-- The mean of some whole numbers, rounded to a whole number; zero for none. -/
def meanRounded (total : Int) (count : Nat) : Int :=
  if count = 0 then 0 else roundEven (Binary64.ofRatio total count).value

namespace Metrics

def countKind (m : Metrics) (kind : SmellKind) : Nat := m.smells.countP fun s => s.kind = kind

/-- What should be done about a file. -/
def suggestionsFor (m : Metrics) (thresholds : Thresholds) : List Text :=
  Text.linesIf (thresholds.maxTestLength < m.averageTestLength)
    ["Split long tests into several smaller tests"] ++
  Text.linesIf (3 < m.duplicatedCode) ["Extract duplicated code into a shared helper"] ++
  Text.linesIf (Extended.ofWhole 7 < m.complexityScore)
    ["Simplify complex test logic; introduce a page-object abstraction"] ++
  Text.linesIf (5 < m.countKind .hardCodedValues)
    ["Extract hard-coded values into constants or configuration"] ++
  Text.linesIf (3 < m.countKind .complexLogic) ["Simplify complex selectors and logic"] ++
  Text.linesIf (5 < m.countKind .missingComments)
    ["Add explanatory comments to complex logic"] ++
  Text.linesIf (m.maintainabilityIndex < .ofWhole thresholds.attentionIndex)
    ["Consider rewriting the whole test file for maintainability"]

/-- The mean complexity of some test cases, with two decimal places; zero for none. -/
def meanComplexity (cases : List Block) : Binary64 :=
  if cases.isEmpty then .zero
  else Binary64.roundTo 2
    (Binary64.sum (cases.map fun b => (Complexity.ofText b.content).score) / .ofNat cases.length)

/-- The mean number of lines of some test cases, rounded; zero for none. -/
def meanLength (cases : List Block) : Int :=
  meanRounded (cases.flatMap (·.lines)).length cases.length

/-- The metrics of a file. -/
def ofText (content path : Text) (thresholds : Thresholds) :
    Except MetricsFault Metrics := do
  let cases := casesOf content
  let smells ← (smellsOf content).mapError .digits
  let loc := countCodeLines (Text.lines content)
  let duplicated := DuplicateLine.count content
  (checkIndexNumbers (meanLength cases) duplicated thresholds.maxTestLength).mapError .number
  let m : Metrics := {
    testFile := path
    linesOfCode := loc
    testCount := countCaseCalls content
    averageTestLength := meanLength cases
    duplicatedCode := duplicated
    complexityScore := meanComplexity cases
    maintainabilityIndex := SuiteAudit.maintainabilityIndex loc (meanLength cases)
      (meanComplexity cases) duplicated smells thresholds.maxTestLength
    smells := smells }
  return { m with suggestions := m.suggestionsFor thresholds }

/-- The metrics of a file with some smells, before suggestions are made. -/
def measured (content path : Text) (thresholds : Thresholds) (smells : List Smell) : Metrics where
  testFile := path
  linesOfCode := countCodeLines (Text.lines content)
  testCount := countCaseCalls content
  averageTestLength := meanLength (casesOf content)
  duplicatedCode := DuplicateLine.count content
  complexityScore := meanComplexity (casesOf content)
  maintainabilityIndex := SuiteAudit.maintainabilityIndex (countCodeLines (Text.lines content))
    (meanLength (casesOf content)) (meanComplexity (casesOf content)) (DuplicateLine.count content)
    smells thresholds.maxTestLength
  smells := smells

theorem ofText_eq_ok_iff {content path : Text} {thresholds : Thresholds} {m : Metrics} :
    ofText content path thresholds = .ok m ↔ ∃ smells, smellsOf content = .ok smells ∧
      checkIndexNumbers (meanLength (casesOf content)) (DuplicateLine.count content)
        thresholds.maxTestLength = .ok () ∧
      m = { measured content path thresholds smells with
        suggestions := (measured content path thresholds smells).suggestionsFor thresholds } := by
  unfold ofText
  cases smellsOf content with
  | error e => exact ⟨nofun, nofun⟩
  | ok smells =>
      let m' := measured content path thresholds smells
      show ((checkIndexNumbers (meanLength (casesOf content)) (DuplicateLine.count content)
        thresholds.maxTestLength).mapError MetricsFault.number >>= fun _ =>
          .ok { m' with suggestions := m'.suggestionsFor thresholds }) = .ok m ↔ _
      cases checkIndexNumbers (meanLength (casesOf content)) (DuplicateLine.count content)
          thresholds.maxTestLength with
      | error e => exact ⟨nofun, nofun⟩
      | ok u =>
          constructor
          · intro h
            exact ⟨smells, rfl, rfl, (Except.ok.inj h).symm⟩
          · rintro ⟨_, hs, -, rfl⟩
            rw [← Except.ok.inj hs]
            rfl

end Metrics
end SuiteAudit
