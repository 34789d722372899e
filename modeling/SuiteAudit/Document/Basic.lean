import SuiteAudit.Document.Coverage
import SuiteAudit.Document.Title
import SuiteAudit.Failure
import SuiteAudit.Number.Extended
import SuiteAudit.Source.Assertion
import SuiteAudit.Source.Step
import SuiteAudit.Table
import SuiteAudit.Text.FreshName
import SuiteAudit.Timestamp.Basic

/-! # Documents

A document describes a test file: its suites, their test cases with steps and assertions, and what
the file covers.  A file without suites is described as one suite with all its test cases.
-/

namespace SuiteAudit

/-- A test case in a document. -/
structure CaseDoc where
  name : Text
  description : Text
  startLine : Int
  steps : List Step := []
  assertions : List Assertion := []
  tags : List Text := []
  complexity : ComplexityLevel := .low
  estimatedSeconds : Extended := .zero
  estimatedDuration : Text := "<5s"

/-- A suite in a document, with the lines that run before and after each test case. -/
structure SuiteDoc where
  name : Text
  description : Text
  tests : List CaseDoc := []
  setup? : Option (List Text) := none
  teardown? : Option (List Text) := none

structure Document where
  filePath : Text
  title : Text
  description : Text
  suites : List SuiteDoc := []
  coverage : Coverage := {}
  dependencies : List Text := []
  lastUpdated : Timestamp

namespace Document

def testCount (d : Document) : Nat := (d.suites.flatMap (·.tests)).length

/-! ### Durations -/

/-- What a step adds to a test case, in tenths of a second. -/
def actionTenths : StepAction → Nat
  | .navigate => 20
  | .click => 5
  | .fill => 5
  | .upload => 30
  | .waitForSelector => 10
  | .waitForTimeout => 10

/-- What every test case takes, in tenths of a second. -/
def baseTenths : Nat := 20

/-- What an assertion adds, in tenths of a second. -/
def assertionTenths : Nat := 2

/-- The estimated duration of a block in tenths of a second. -/
def durationTenths (content : Text) : Nat :=
  baseTenths + ((stepsOf content).map fun s => actionTenths s.action).foldr (· + ·) 0 +
    assertionTenths * (assertionsOf content).length

/-- The estimated duration of a block in seconds. -/
def estimateSeconds (content : Text) : Binary64 := Binary64.ofRatio (durationTenths content) 10

/-- A duration as one of four ranges. -/
def durationBucket (seconds : Extended) : Text :=
  if seconds ≤ .ofWhole 5 then "<5s"
  else if seconds ≤ .ofWhole 15 then "5-15s"
  else if seconds ≤ .ofWhole 30 then "15-30s"
  else ">30s"

/-! ### Building a document -/

/-- The lines of the first hook of a kind, trimmed and not empty, if there are any. -/
def hookLines? (content : Text) (h : Hook) : Option (List Text) :=
  match hooksOf content h with
  | [] => none
  | b :: _ =>
    match (b.bodyLines.map Text.trim).filter fun line => !line.isEmpty with
    | [] => none
    | lines => some lines

/-- The description of a test case among the lines of its file. -/
def caseDoc (lines : List Text) (b : Block) : CaseDoc :=
  let complexity := Complexity.ofText b.content
  let seconds := estimateSeconds b.content
  { name := b.name
    description := caseDescription b.name lines b.startLine.toNat
    startLine := b.startLine
    steps := stepsOf b.content
    assertions := assertionsOf b.content
    tags := tagsOf b.name b.content complexity
    complexity := complexity.level
    estimatedSeconds := seconds
    estimatedDuration := durationBucket seconds }

def rootSuiteName : Text := "Root test suite"

def defaultSuiteDescription : Text := "Test suite"

/-- The suites of a file, or one suite with all its test cases where there are none. -/
def suiteDocs (content : Text) : List SuiteDoc :=
  let lines := Text.lines content
  let setup? := hookLines? content .beforeEach
  let teardown? := hookLines? content .afterEach
  match suitesOf content with
  | [] =>
    [⟨rootSuiteName, defaultSuiteDescription, (casesOf content).map (caseDoc lines), setup?,
      teardown?⟩]
  | suites =>
    suites.map fun s =>
      ⟨s.block.name,
        (commentAbove? lines s.block.startLine.toNat).getD defaultSuiteDescription,
        s.cases.map (caseDoc lines), setup?, teardown?⟩

/-- The document of a file. -/
def ofText (content path : Text) (now : Timestamp) : Document where
  filePath := path
  title := titleOf content path
  description := descriptionOf content
  suites := suiteDocs content
  coverage := Coverage.ofText content
  dependencies := Dependency.namesIn content
  lastUpdated := now

/-! ### Names of documents -/

def ending : Text := ".md"

/-- The name that a document asks for. -/
def fileName (path : Text) : Text := stemOf path ++ ending

/-- The name for a document when some names are taken. -/
def freeName (taken : List Text) (path : Text) : Text :=
  freshName taken (fileName path) fun n => stemOf path ++ "-" ++ Text.ofNat n ++ ending

/-- The names of some documents in order, after some names that are taken. -/
def namesAfter : List Text → List Text → List Text
  | _, [] => []
  | taken, path :: rest =>
    let name := freeName taken path
    name :: namesAfter (name :: taken) rest

/-- The name of the document of each file; a file that is there twice has the later one. -/
def nameTable (docs : List Document) : Table Text Text :=
  let paths := docs.map (·.filePath)
  Table.ofPairs (paths.zip (namesAfter [] paths))

end Document

/-! ### A whole suite -/

structure DocumentSummary where
  totalFiles : Int := 0
  totalSuites : Int := 0
  totalCases : Int := 0
  featureCoverage : Table Text Int := []
  complexityDistribution : Table Text Int := []

structure DocumentReport where
  summary : DocumentSummary
  documents : List Document := []
  failures : List FileFailure := []

namespace DocumentReport

/-- All test cases of some documents. -/
def allCases (docs : List Document) : List CaseDoc :=
  docs.flatMap fun d => d.suites.flatMap fun s => s.tests

def ofDocuments (docs : List Document) (failures : List FileFailure) : DocumentReport where
  summary := {
    totalFiles := docs.length
    totalSuites := (docs.flatMap (·.suites)).length
    totalCases := (allCases docs).length
    featureCoverage :=
      (Table.tally (docs.flatMap fun d => d.coverage.features)).map fun p => (p.1, (p.2 : Int))
    complexityDistribution := ComplexityLevel.all.map fun level =>
      (level.name, ((allCases docs).countP fun c => c.complexity = level : Int)) }
  documents := docs
  failures := failures

end DocumentReport
end SuiteAudit
