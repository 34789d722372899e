import SuiteAudit.Diff.Unified
import SuiteAudit.Failure
import SuiteAudit.Maintainability.Metrics
import SuiteAudit.Refactoring.Comments
import SuiteAudit.Refactoring.Methods
import SuiteAudit.Refactoring.Suggestions

/-! # Proposals

All that is proposed for one file: the new text with named constants and comments, the changes, a
score for what they gain, and the diff.  Over many files the names are merged in file order.
-/

namespace SuiteAudit

/-- The points for extractions: ten for each, up to 50. -/
def extractionPoints (extractions : Int) : Int := min (10 * extractions) 50

/-- The characters less that count: each is worth a hundredth of a point. -/
def maxShortening : Nat := 3000

/-- The points for complexity less: five for a unit of weight, up to 20. -/
def weightPoints (before after : Text) : Nat :=
  min (5 * ((Complexity.ofText before).weight - (Complexity.ofText after).weight)) 20

/-- The gain of a new text before it is limited and rounded: the points for extractions, for
characters less and for complexity less. -/
def gain (before after : Text) (extractions : Int) : Binary64 :=
  let shortening := before.length - after.length
  let points := extractionPoints extractions
  let weight := weightPoints before after
  if maxShortening < shortening then .ofInt (points + 30 + weight)
  else .ofInt points + .ofRatio shortening 100 + .ofNat weight

/-- The gain of a new text, up to 100, with two decimal places. -/
def improvementScore (before after : Text) (extractions : Int) : Binary64 :=
  Binary64.roundTo 2 (Binary64.min (gain before after extractions) (.ofNat 100))

/-- The gain of a new text for a number of extractions, which has to be near a floating-point
number. -/
def improvementFor (before after : Text) (extractions : Int) : Except NumberFault Binary64 :=
  (Extended.ofInt (extractionPoints extractions)).map fun _ =>
    improvementScore before after extractions

structure Proposal where
  filePath : Text
  before : Text
  after : Text
  changes : List Change := []
  score : Extended := .zero
  diff : Text := []
  context : Context := {}

namespace Proposal

/-- What is proposed for a file, with the names of a context. -/
def ofText (content path : Text) (context : Context) : Except Interrupted Proposal := do
  let e ← Extraction.ofText content context
  let (context, methodChanges) := Methods.extract content e.context
  let (after, commentChanges) := Comments.add (e.newText content)
  let changes := e.changes ++ methodChanges ++ Suggestions.selectorChanges content ++
    commentChanges ++ Suggestions.namingChanges content
  return {
    filePath := path
    before := content
    after := after
    changes := changes
    score := improvementScore content after (changes.countP fun c => c.kind.isExtraction)
    diff := Diff.unified path content after
    context := context }

/-- What is proposed for a file whose values are named. -/
def ofExtraction (content path : Text) (e : Extraction) : Proposal :=
  let after := (Comments.add (e.newText content)).1
  let changes := e.changes ++ (Methods.extract content e.context).2 ++
    Suggestions.selectorChanges content ++ (Comments.add (e.newText content)).2 ++
    Suggestions.namingChanges content
  { filePath := path
    before := content
    after := after
    changes := changes
    score := improvementScore content after (changes.countP fun c => c.kind.isExtraction)
    diff := Diff.unified path content after
    context := (Methods.extract content e.context).1 }

theorem ofText_eq_ok_iff {content path : Text} {context : Context} {p : Proposal} :
    ofText content path context = .ok p ↔
      ∃ e, Extraction.ofText content context = .ok e ∧ p = ofExtraction content path e := by
  unfold ofText
  cases Extraction.ofText content context with
  | error i => exact ⟨nofun, nofun⟩
  | ok e =>
      constructor
      · intro h
        exact ⟨e, rfl, (Except.ok.inj h).symm⟩
      · rintro ⟨_, he, rfl⟩
        rw [← Except.ok.inj he]
        rfl

/-- Whether a proposal has changes and gains enough to be applied. -/
def isApplicable (thresholds : Thresholds) (p : Proposal) : Bool :=
  !p.changes.isEmpty && thresholds.applyMinImprovement < p.score

/-- The proposals that are applied. -/
def applicable (proposals : List Proposal) (thresholds : Thresholds) : List Proposal :=
  proposals.filter (·.isApplicable thresholds)

end Proposal

/-! ### A whole suite -/

structure ProposalSummary where
  totalFiles : Int := 0
  changedFiles : Int := 0
  totalChanges : Int := 0
  averageScore : Extended := .zero

structure ProposalReport where
  summary : ProposalSummary
  proposals : List Proposal := []
  constants : Context := {}
  failures : List FileFailure := []

namespace ProposalReport

/-- The mean score of some proposals, with two decimal places; zero for none. -/
def averageScore (proposals : List Proposal) : Extended :=
  if proposals.isEmpty then .zero
  else (Extended.mean (proposals.map (·.score))).roundTo 2

def ofProposals (proposals : List Proposal) (failures : List FileFailure) : ProposalReport where
  summary := {
    totalFiles := proposals.length
    changedFiles := proposals.countP fun p => !p.changes.isEmpty
    totalChanges := (proposals.flatMap (·.changes)).length
    averageScore := averageScore proposals }
  proposals := proposals
  constants := proposals.foldl (fun merged p => merged.merge p.context) {}
  failures := failures

end ProposalReport
end SuiteAudit
