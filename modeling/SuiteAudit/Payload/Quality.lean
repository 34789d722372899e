import SuiteAudit.Payload.Failure
import SuiteAudit.Quality.Report

/-! # Payloads of quality reports -/

namespace SuiteAudit

open Payload

namespace CodeExample

def toJson (e : CodeExample) : Json := .obj [("bad", .str e.bad), ("good", .str e.good)]

def ofJson : Reader CodeExample := recordOf fun m =>
  CodeExample.mk <$> required "bad" text m <*> required "good" text m

end CodeExample

namespace Violation

def toJson (v : Violation) : Json :=
  .obj [("standardId", .str v.standardId), ("line", .int v.line), ("message", .str v.message),
    ("severity", .str v.severity.name), ("suggestion", Json.ofOption .str v.suggestion?),
    ("codeExample", Json.ofOption CodeExample.toJson v.example?)]

def ofJson : Reader Violation := recordOf fun m =>
  Violation.mk <$> required "standardId" text m
    <*> required "line" whole m
    <*> required "message" text m
    <*> required "severity" (choice Severity.all Severity.name) m
    <*> defaulted "suggestion" (nullable text) none m
    <*> defaulted "codeExample" (nullable CodeExample.ofJson) none m

end Violation

def Standard.toJson (s : Standard) : Json :=
  .obj [("standardId", .str s.id), ("name", .str s.name), ("description", .str s.description),
    ("category", .str s.category.name), ("severity", .str s.severity.name)]

namespace SeverityCounts

def toJson (c : SeverityCounts) : Json :=
  .obj [("errors", .int c.errors), ("warnings", .int c.warnings), ("infos", .int c.infos)]

def ofJson : Reader SeverityCounts := recordOf fun m =>
  SeverityCounts.mk <$> defaulted "errors" whole 0 m
    <*> defaulted "warnings" whole 0 m
    <*> defaulted "infos" whole 0 m

end SeverityCounts

namespace QualityReport

def toJson (r : QualityReport) : Json :=
  .obj [("filePath", .str r.filePath), ("violations", .arr (r.violations.map Violation.toJson)),
    ("score", .int r.score), ("grade", .str r.grade.name), ("summary", r.summary.toJson)]

def ofJson : Reader QualityReport := recordOf fun m =>
  QualityReport.mk <$> required "filePath" text m
    <*> defaulted "violations" (listOf Violation.ofJson) [] m
    <*> required "score" whole m
    <*> required "grade" (choice Grade.all Grade.name) m
    <*> required "summary" SeverityCounts.ofJson m

end QualityReport

namespace ViolationCount

def toJson (c : ViolationCount) : Json :=
  .obj [("standardId", .str c.standardId), ("count", .int c.count),
    ("description", .str c.description)]

def ofJson : Reader ViolationCount := recordOf fun m =>
  ViolationCount.mk <$> required "standardId" text m
    <*> required "count" whole m
    <*> required "description" text m

end ViolationCount

/-- A table of counts as an object. -/
def countsToJson (table : Table Text Int) : Json := .obj (table.map fun p => (p.1, .int p.2))

namespace QualitySummary

def toJson (s : QualitySummary) : Json :=
  .obj [("totalFiles", .int s.totalFiles), ("averageScore", .int s.averageScore),
    ("gradeDistribution", countsToJson s.gradeDistribution),
    ("topViolations", .arr (s.topViolations.map ViolationCount.toJson))]

def ofJson : Reader QualitySummary := recordOf fun m =>
  QualitySummary.mk <$> defaulted "totalFiles" whole 0 m
    <*> defaulted "averageScore" whole 0 m
    <*> defaulted "gradeDistribution" (tableOf whole) [] m
    <*> defaulted "topViolations" (listOf ViolationCount.ofJson) [] m

end QualitySummary
end SuiteAudit
