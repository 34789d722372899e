import SuiteAudit.Quality.Checks.Documentation
import SuiteAudit.Quality.Checks.Naming
import SuiteAudit.Quality.Checks.Performance

/-! # The default standards

The fifteen standards that a file is held to when nothing else is said, by category.
-/

namespace SuiteAudit.Standard

def structural : List Standard :=
  [⟨Checks.fileStructureId, "Test file structure",
     "Test files import their runner and contain test cases", .organization, .error,
     Checks.fileStructure⟩,
   ⟨Checks.suiteGroupingId, "Suite grouping", "Related tests are grouped with describe",
     .organization, .warning, Checks.suiteGrouping⟩,
   ⟨Checks.independenceId, "Test independence", "Tests do not share module-level mutable state",
     .organization, .error, Checks.independence⟩]

def naming : List Standard :=
  [⟨Checks.descriptionId, "Descriptive test names",
     "Test descriptions state the purpose and expected result", .naming, .warning,
     Checks.caseDescriptions⟩,
   ⟨Checks.variableId, "Variable naming", "Variable names are meaningful", .naming, .warning,
     Checks.variableNames⟩,
   ⟨Checks.pageObjectId, "Page object naming", "Page object variables follow their class name",
     .naming, .info, Checks.pageObjectNames⟩]

def documentation : List Standard :=
  [⟨Checks.headerId, "File header comment",
     "Test files start with a comment describing their purpose", .documentation, .warning,
     Checks.fileHeader⟩,
   ⟨Checks.complexLogicId, "Complex logic comments",
     "Complex test logic carries an explanatory comment", .documentation, .info,
     Checks.complexLogicComments⟩,
   ⟨Checks.testDataId, "Test data documentation", "Test data objects are explained",
     .documentation, .info, Checks.testDataDocumentation⟩]

def maintainability : List Standard :=
  [⟨Checks.lengthId, "Test length",
     "A single test stays under " ++ Text.ofNat Checks.maxCaseLines ++ " lines", .maintainability,
     .warning, Checks.caseLength⟩,
   ⟨Checks.duplicateId, "Duplicate code", "Repeated code is extracted into shared helpers",
     .maintainability, .warning, Checks.duplicateCode⟩,
   ⟨Checks.hardCodedId, "Hard-coded values",
     "Timeouts and test data live in constants or configuration", .maintainability, .info,
     Checks.hardCodedValues⟩,
   ⟨Checks.selectorId, "Selector quality", "Selectors are stable, preferring data-testid",
     .maintainability, .warning, Checks.selectorQuality⟩]

def performance : List Standard :=
  [⟨Checks.waitId, "Wait strategy", "Tests wait on conditions instead of fixed delays",
     .performance, .warning, Checks.waitStrategies⟩,
   ⟨Checks.cleanupId, "Resource cleanup", "Tests clean up the resources they create",
     .performance, .error, Checks.resourceCleanup⟩]

/-- The default standards in their order. -/
def defaults : List Standard :=
  structural ++ naming ++ documentation ++ maintainability ++ performance

end SuiteAudit.Standard
