import SuiteAudit.Quality.Checks.Maintenance
import SuiteAudit.Quality.Checks.Structure

/-! # Checks of performance

Test cases wait for conditions and give back what they use.
-/

namespace SuiteAudit.Checks

def waitId : Text := "test-perf-001"

def fixedDelay (line : Nat) : Violation where
  standardId := waitId
  line := line
  message := "Avoid long fixed delays"
  severity := .warning
  suggestion? := some "Use waitForSelector or another condition-based wait"
  example? := some {
    bad := "waitForTimeout(5000)"
    good := "waitForSelector('[data-testid=\"analysis-result\"]', \x7b timeout: 5000 \x7d)" }

/-- There is no long fixed wait. -/
def waitStrategies : Check := fun content _ => do
  let waits ← (longWaits content).mapError .digitLimit
  return waits.map fun p => fixedDelay p.1

def cleanupId : Text := "test-perf-002"

def missingCleanup (line : Nat) : Violation where
  standardId := cleanupId
  line := line
  message := "TestDataManager resources must be cleaned up in afterEach"
  severity := .error
  suggestion? := some "Add an afterEach hook that calls cleanup()"

/-- Managed data are cleaned up after each test case. -/
def resourceCleanup : Check := fun content _ =>
  let cleaned := Text.contains content "afterEach" && Text.contains content "cleanup"
  .ok (if cleaned then [] else ((lineOfFirst? content dataManager).map missingCleanup).toList)

end SuiteAudit.Checks
