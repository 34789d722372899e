import SuiteAudit.Maintainability.Report
import SuiteAudit.Payload.Failure

/-! # Payloads of maintainability reports -/

namespace SuiteAudit

open Payload

namespace Thresholds

def toJson (t : Thresholds) : Json :=
  .obj [("max_test_length", .int t.maxTestLength), ("attention_index", .int t.attentionIndex),
    ("apply_min_improvement", .real t.applyMinImprovement)]

def ofJson : Reader Thresholds := recordOf fun m =>
  let other : Thresholds := {}
  Thresholds.mk <$> defaulted "max_test_length" whole other.maxTestLength m
    <*> defaulted "attention_index" whole other.attentionIndex m
    <*> defaulted "apply_min_improvement" real other.applyMinImprovement m

end Thresholds

namespace Smell

def toJson (s : Smell) : Json :=
  .obj [("type", .str s.kind.name), ("line", .int s.line), ("description", .str s.description),
    ("severity", .str s.severity.name), ("refactoringEffort", .str s.effort.name)]

def ofJson : Reader Smell := recordOf fun m =>
  Smell.mk <$> required "type" (choice SmellKind.all SmellKind.name) m
    <*> required "line" whole m
    <*> required "description" text m
    <*> required "severity" (choice Level.all Level.name) m
    <*> required "refactoringEffort" (choice Level.all Level.name) m

end Smell

namespace Metrics

def toJson (m : Metrics) : Json :=
  .obj [("testFile", .str m.testFile), ("linesOfCode", .int m.linesOfCode),
    ("testCount", .int m.testCount), ("averageTestLength", .int m.averageTestLength),
    ("duplicatedCode", .int m.duplicatedCode), ("complexityScore", .real m.complexityScore),
    ("maintainabilityIndex", .real m.maintainabilityIndex),
    ("codeSmells", .arr (m.smells.map Smell.toJson)), ("suggestions", .strs m.suggestions)]

def ofJson : Reader Metrics := recordOf fun m =>
  Metrics.mk <$> required "testFile" text m
    <*> defaulted "linesOfCode" whole 0 m
    <*> defaulted "testCount" whole 0 m
    <*> defaulted "averageTestLength" whole 0 m
    <*> defaulted "duplicatedCode" whole 0 m
    <*> defaulted "complexityScore" real .zero m
    <*> defaulted "maintainabilityIndex" real (Binary64.ofNat 100) m
    <*> defaulted "codeSmells" (listOf Smell.ofJson) [] m
    <*> defaulted "suggestions" (listOf text) [] m

end Metrics

namespace BeforeAfter

def toJson (e : BeforeAfter) : Json := .obj [("before", .str e.before), ("after", .str e.after)]

def ofJson : Reader BeforeAfter := recordOf fun m =>
  BeforeAfter.mk <$> required "before" text m <*> required "after" text m

end BeforeAfter

namespace Opportunity

def toJson (o : Opportunity) : Json :=
  .obj [("type", .str o.kind.name), ("testFile", .str o.testFile),
    ("description", .str o.description), ("estimatedEffort", .str o.estimatedEffort),
    ("impact", .str o.impact.name), ("codeExample", Json.ofOption BeforeAfter.toJson o.example?)]

def ofJson : Reader Opportunity := recordOf fun m =>
  Opportunity.mk <$> required "type" (choice OpportunityKind.all OpportunityKind.name) m
    <*> required "testFile" text m
    <*> required "description" text m
    <*> required "estimatedEffort" text m
    <*> required "impact" (choice Level.all Level.name) m
    <*> defaulted "codeExample" (nullable BeforeAfter.ofJson) none m

end Opportunity

namespace MaintainabilitySummary

def toJson (s : MaintainabilitySummary) : Json :=
  .obj [("totalFiles", .int s.totalFiles), ("averageMaintainabilityIndex", .int s.averageIndex),
    ("filesNeedingAttention", .int s.filesNeedingAttention),
    ("totalCodeSmells", .int s.totalSmells)]

def ofJson : Reader MaintainabilitySummary := recordOf fun m =>
  MaintainabilitySummary.mk <$> defaulted "totalFiles" whole 0 m
    <*> defaulted "averageMaintainabilityIndex" whole 0 m
    <*> defaulted "filesNeedingAttention" whole 0 m
    <*> defaulted "totalCodeSmells" whole 0 m

end MaintainabilitySummary

namespace MaintainabilityReport

/-- How many files fall in each class. -/
def distributionOfJson : Reader (List (IndexClass × Int)) := recordOf fun m =>
  (fun excellent good fair poor =>
      [(.excellent, excellent), (.good, good), (.fair, fair), (.poor, poor)])
    <$> defaulted IndexClass.excellent.name whole 0 m
    <*> defaulted IndexClass.good.name whole 0 m
    <*> defaulted IndexClass.fair.name whole 0 m
    <*> defaulted IndexClass.poor.name whole 0 m

/-- How many smells of a kind there are. -/
def issueOfJson : Reader (SmellKind × Int) := recordOf fun m =>
  Prod.mk <$> required "type" (choice SmellKind.all SmellKind.name) m <*> required "count" whole m

def ofJson : Reader MaintainabilityReport := recordOf fun m =>
  let other : MaintainabilityReport := { summary := {} }
  MaintainabilityReport.mk <$> required "summary" MaintainabilitySummary.ofJson m
    <*> defaulted "fileMetrics" (listOf Metrics.ofJson) [] m
    <*> defaulted "refactoringOpportunities" (listOf Opportunity.ofJson) [] m
    <*> defaulted "distribution" distributionOfJson other.distribution m
    <*> defaulted "topIssues" (listOf issueOfJson) [] m
    <*> defaulted "failures" (listOf FileFailure.ofJson) [] m

end MaintainabilityReport
end SuiteAudit
