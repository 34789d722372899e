import SuiteAudit.Document.Basic
import SuiteAudit.Text.Markdown

/-! # Pages of documents

A document as a Markdown page, and the index page of a whole suite with a link to each of them.
-/

namespace SuiteAudit

open Markdown

/-- The line of a step with its number. -/
def Step.pageLine (number : Nat) (s : Step) : Text :=
  Text.ofNat number ++ ". " ++ s.description ++
    (((given? s.expected).map fun (e : Text) => " -> " ++ e).getD [])

/-- A test case with the numbers of its suite and of itself. -/
def CaseDoc.pageLines (suite number : Nat) (c : CaseDoc) : List Text :=
  ["##### " ++ Text.ofNat suite ++ "." ++ Text.ofNat number ++ " " ++ c.name, [],
    entry "Description" c.description,
    entry "Complexity" c.complexity.name,
    entry "Estimated duration" c.estimatedDuration] ++
  (if c.tags.isEmpty then [] else [entry "Tags" (Text.join ", " (c.tags.map code))]) ++ [[]] ++
  labelled "Steps" ((c.steps.zipIdx 1).map fun p => p.1.pageLine p.2) ++
  labelled "Checks" (c.assertions.map fun a => item a.text) ++ rule

/-- The lines that run around each test case, under a label. -/
def hookPageLines (label : Text) (ls? : Option (List Text)) : List Text :=
  match ls? with
  | none | some [] => []
  | some ls => above ("**" ++ label ++ ":**") (fenced ls) ++ [[]]

/-- A suite with its number. -/
def SuiteDoc.pageLines (number : Nat) (s : SuiteDoc) : List Text :=
  ["### " ++ Text.ofNat number ++ ". " ++ s.name, [], s.description, []] ++
  hookPageLines "Setup" s.setup? ++ hookPageLines "Teardown" s.teardown? ++
  titled "#### Test cases" (numbered (CaseDoc.pageLines number) s.tests)

namespace Document

def overviewLines (d : Document) : List Text :=
  sectionLines "## Overview"
    [item (entry "File" (code d.filePath)),
      item (entry "Last updated" d.lastUpdated.text),
      item (entry "Test suites" (Text.ofNat d.suites.length)),
      item (entry "Test cases" (Text.ofNat d.testCount))]

/-- The Markdown page of a document. -/
def page (d : Document) : Text :=
  Text.joinLines (["# " ++ d.title, [], d.description, []] ++ d.overviewLines ++
    sectionOf "## Feature coverage" item d.coverage.features ++
    sectionOf "## User stories" item d.coverage.userStories ++
    sectionOf "## Requirements" item d.coverage.requirements ++
    sectionOf "## Dependencies" (fun name => item (code name)) d.dependencies ++
    titled "## Test suites" (numbered SuiteDoc.pageLines d.suites))

/-- The name of the folder that the pages are in. -/
def folder : Text := "test-docs"

end Document

namespace DocumentReport

def summaryLines (s : DocumentSummary) : List Text :=
  sectionLines "## Summary"
    [item (entry "Files" (Text.ofInt s.totalFiles)),
      item (entry "Test suites" (Text.ofInt s.totalSuites)),
      item (entry "Test cases" (Text.ofInt s.totalCases))]

/-- The line of a feature with the number of files that cover it. -/
def featureLine (p : Text × Int) : Text := item (p.1 ++ ": " ++ Text.ofInt p.2 ++ " file(s)")

/-- The line of a document with a link to its page. -/
def linkLine (names : Table Text Text) (d : Document) : Text :=
  item ("[" ++ d.title ++ "](" ++ Document.folder ++ "/" ++ ((names.get? d.filePath).getD []) ++
    ") (" ++ Text.ofNat d.testCount ++ " tests) " ++ code d.filePath)

def failureLine (f : FileFailure) : Text := item (code f.filePath ++ ": " ++ f.error)

/-- The Markdown index of a suite. -/
def index (r : DocumentReport) : Text :=
  let features := r.summary.featureCoverage.mergeSort fun a b => Text.le a.1 b.1
  Text.joinLines (titled "# Test Suite Index" (summaryLines r.summary) ++
    sectionOf "## Feature coverage" featureLine features ++
    sectionLines "## Complexity distribution"
      (r.summary.complexityDistribution.map fun p => item (p.1 ++ ": " ++ Text.ofInt p.2)) ++
    sectionLines "## Files" (r.documents.map (linkLine (Document.nameTable r.documents))) ++
    sectionOf "## Failures" failureLine r.failures)

end DocumentReport
end SuiteAudit
