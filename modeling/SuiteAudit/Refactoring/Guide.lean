import SuiteAudit.Number.Decimal
import SuiteAudit.Refactoring.Proposal
import SuiteAudit.Text.Markdown

/-! # Refactoring suggestions

The Markdown page on the proposals for a suite: the proposals that gain the most, two patterns, and
the helpers for repeated steps.
-/

namespace SuiteAudit

open Markdown

namespace Proposal

/-- A proposal with a higher score is listed. -/
def guideScore : Extended := .ofWhole 30

def changeLine (c : Change) : Text :=
  item ("**" ++ c.kind.name ++ "** (line " ++ Text.ofInt c.line ++ "): " ++ c.description)

/-- The lines on the proposal for a file. -/
def guideLines (p : Proposal) : List Text :=
  ["### " ++ p.filePath, [], entry "Improvement score" p.score.text,
    entry "Changes" (Text.ofNat p.changes.length), []] ++
  labelled "Proposed changes" (p.changes.map changeLine) ++ rule

end Proposal

namespace ProposalReport

/-- How constants are extracted. -/
def constantPattern : List Text :=
  fenced
    ["// Before",
      "await page.waitForTimeout(5000);",
      "await page.fill('#email', 'test@example.com');",
      "",
      "// After",
      "const LONG_TIMEOUT = 5000;",
      "const TEST_EMAIL = 'test@example.com';",
      "await page.waitForTimeout(LONG_TIMEOUT);",
      "await page.fill('#email', TEST_EMAIL);"]

/-- How shared steps are extracted. -/
def methodPattern : List Text :=
  fenced
    ["// Before",
      "test('logs in', async (\x7b page \x7d) => \x7b",
      "  await page.goto('/login');",
      "  await page.fill('#username', 'test');",
      "  await page.fill('#password', 'test');",
      "  await page.click('#login-btn');",
      "\x7d);",
      "",
      "// After",
      "async function performLogin(page, username, password) \x7b",
      "  await page.goto('/login');",
      "  await page.fill('#username', username);",
      "  await page.fill('#password', password);",
      "  await page.click('#login-btn');",
      "\x7d",
      "",
      "test('logs in', async (\x7b page \x7d) => \x7b",
      "  await performLogin(page, 'test', 'test');",
      "\x7d);"]

def summaryLines (s : ProposalSummary) : List Text :=
  sectionLines "## Summary"
    [item (entry "Files analyzed" (Text.ofInt s.totalFiles)),
      item (entry "Files with changes" (Text.ofInt s.changedFiles)),
      item (entry "Total changes" (Text.ofInt s.totalChanges)),
      item (entry "Average improvement score" s.averageScore.text)]

/-- The proposals that gain much, the best first. -/
def rankedProposals (proposals : List Proposal) : List Proposal :=
  (proposals.filter fun p => Proposal.guideScore < p.score).mergeSort fun a b => b.score ≤ a.score

/-- The helpers for repeated steps; nothing for none. -/
def helperLines (c : Context) : List Text :=
  if c.methods.isEmpty then []
  else sectionLines "## Shared step helpers"
    (fenced [Text.trimEndWhile (· == '\n') c.methodDefinitions])

/-- The Markdown page on the proposals. -/
def guide (r : ProposalReport) : Text :=
  Text.joinLines
    (titled "# Refactoring Suggestions"
      (titled "Suggestions derived from static analysis of the test sources."
        (summaryLines r.summary)) ++
    underHeading "## High priority" ((rankedProposals r.proposals).flatMap Proposal.guideLines) ++
    titled "## Common patterns" (above "### 1. Extract constants" constantPattern) ++ [[]] ++
    above "### 2. Extract shared steps" methodPattern ++ [[]] ++ helperLines r.constants)

end ProposalReport
end SuiteAudit
