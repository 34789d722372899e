import SuiteAudit.Document.Basic
import SuiteAudit.Payload.Moment
import SuiteAudit.Payload.Quality
import SuiteAudit.Payload.Source

/-! # Payloads of documents -/

namespace SuiteAudit

open Payload

namespace CaseDoc

def toJson (c : CaseDoc) : Json :=
  .obj [("name", .str c.name), ("description", .str c.description), ("startLine", .int c.startLine),
    ("steps", .arr (c.steps.map Step.toJson)),
    ("assertions", .arr (c.assertions.map Assertion.toJson)), ("tags", .strs c.tags),
    ("complexity", .str c.complexity.name), ("estimatedSeconds", .real c.estimatedSeconds),
    ("estimatedDuration", .str c.estimatedDuration)]

def ofJson : Reader CaseDoc := recordOf fun m =>
  CaseDoc.mk <$> required "name" text m
    <*> required "description" text m
    <*> required "startLine" whole m
    <*> defaulted "steps" (listOf Step.ofJson) [] m
    <*> defaulted "assertions" (listOf Assertion.ofJson) [] m
    <*> defaulted "tags" (listOf text) [] m
    <*> defaulted "complexity" (choice ComplexityLevel.all ComplexityLevel.name) .low m
    <*> defaulted "estimatedSeconds" real .zero m
    <*> defaulted "estimatedDuration" text "<5s" m

end CaseDoc

namespace SuiteDoc

def toJson (s : SuiteDoc) : Json :=
  .obj [("name", .str s.name), ("description", .str s.description),
    ("tests", .arr (s.tests.map CaseDoc.toJson)), ("setup", Json.ofOption .strs s.setup?),
    ("teardown", Json.ofOption .strs s.teardown?)]

def ofJson : Reader SuiteDoc := recordOf fun m =>
  SuiteDoc.mk <$> required "name" text m
    <*> required "description" text m
    <*> defaulted "tests" (listOf CaseDoc.ofJson) [] m
    <*> defaulted "setup" (nullable (listOf text)) none m
    <*> defaulted "teardown" (nullable (listOf text)) none m

end SuiteDoc

namespace Coverage

def toJson (c : Coverage) : Json :=
  .obj [("features", .strs c.features), ("userStories", .strs c.userStories),
    ("requirements", .strs c.requirements)]

def ofJson : Reader Coverage := recordOf fun m =>
  Coverage.mk <$> defaulted "features" (listOf text) [] m
    <*> defaulted "userStories" (listOf text) [] m
    <*> defaulted "requirements" (listOf text) [] m

end Coverage

namespace Document

def toJson (d : Document) : Json :=
  .obj [("filePath", .str d.filePath), ("title", .str d.title), ("description", .str d.description),
    ("testSuites", .arr (d.suites.map SuiteDoc.toJson)), ("coverage", d.coverage.toJson),
    ("dependencies", .strs d.dependencies), ("lastUpdated", .str d.lastUpdated.payloadText)]

def ofJson : Reader Document := recordOf fun m =>
  Document.mk <$> required "filePath" text m
    <*> required "title" text m
    <*> required "description" text m
    <*> defaulted "testSuites" (listOf SuiteDoc.ofJson) [] m
    <*> defaulted "coverage" Coverage.ofJson {} m
    <*> defaulted "dependencies" (listOf text) [] m
    <*> required "lastUpdated" moment m

end Document

namespace DocumentSummary

def toJson (s : DocumentSummary) : Json :=
  .obj [("totalFiles", .int s.totalFiles), ("totalTestSuites", .int s.totalSuites),
    ("totalTestCases", .int s.totalCases), ("featureCoverage", countsToJson s.featureCoverage),
    ("complexityDistribution", countsToJson s.complexityDistribution)]

def ofJson : Reader DocumentSummary := recordOf fun m =>
  DocumentSummary.mk <$> defaulted "totalFiles" whole 0 m
    <*> defaulted "totalTestSuites" whole 0 m
    <*> defaulted "totalTestCases" whole 0 m
    <*> defaulted "featureCoverage" (tableOf whole) [] m
    <*> defaulted "complexityDistribution" (tableOf whole) [] m

end DocumentSummary
end SuiteAudit
