import SuiteAudit.Payload.Failure
import SuiteAudit.Refactoring.Proposal

/-! # Payloads of proposals -/

namespace SuiteAudit

open Payload

namespace Change

def toJson (c : Change) : Json :=
  .obj [("type", .str c.kind.name), ("line", .int c.line), ("description", .str c.description),
    ("before", .str c.before), ("after", .str c.after)]

def ofJson : Reader Change := recordOf fun m =>
  Change.mk <$> required "type" (choice ChangeKind.all ChangeKind.name) m
    <*> required "line" whole m
    <*> required "description" text m
    <*> required "before" text m
    <*> required "after" text m

end Change

namespace Context

/-- A table of names as an object. -/
def namesToJson (table : Table Text Text) : Json := .obj (table.map fun p => (p.1, .str p.2))

def toJson (c : Context) : Json :=
  .obj [("timeoutConstants", namesToJson c.timeouts), ("testDataConstants", namesToJson c.data),
    ("extractedMethods", namesToJson c.methods)]

def ofJson : Reader Context := recordOf fun m =>
  Context.mk <$> defaulted "timeoutConstants" (tableOf text) [] m
    <*> defaulted "testDataConstants" (tableOf text) [] m
    <*> defaulted "extractedMethods" (tableOf text) [] m

end Context

namespace Proposal

def toJson (p : Proposal) : Json :=
  .obj [("filePath", .str p.filePath), ("originalContent", .str p.before),
    ("refactoredContent", .str p.after), ("changes", .arr (p.changes.map Change.toJson)),
    ("improvementScore", .real p.score), ("diffText", .str p.diff), ("context", p.context.toJson)]

def ofJson : Reader Proposal := recordOf fun m =>
  Proposal.mk <$> required "filePath" text m
    <*> required "originalContent" text m
    <*> required "refactoredContent" text m
    <*> defaulted "changes" (listOf Change.ofJson) [] m
    <*> defaulted "improvementScore" real .zero m
    <*> defaulted "diffText" text [] m
    <*> defaulted "context" Context.ofJson {} m

end Proposal

namespace ProposalSummary

def toJson (s : ProposalSummary) : Json :=
  .obj [("totalFiles", .int s.totalFiles), ("successfulRefactorings", .int s.changedFiles),
    ("totalChanges", .int s.totalChanges), ("averageImprovementScore", .real s.averageScore)]

def ofJson : Reader ProposalSummary := recordOf fun m =>
  ProposalSummary.mk <$> defaulted "totalFiles" whole 0 m
    <*> defaulted "successfulRefactorings" whole 0 m
    <*> defaulted "totalChanges" whole 0 m
    <*> defaulted "averageImprovementScore" real .zero m

end ProposalSummary
end SuiteAudit
