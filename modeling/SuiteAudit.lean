import SuiteAudit.CommandLine.Arguments
import SuiteAudit.CommandLine.Program
import SuiteAudit.Diff.Matching
import SuiteAudit.Diff.Unified
import SuiteAudit.Disk.Basic
import SuiteAudit.Disk.Discovery
import SuiteAudit.Disk.Machine
import SuiteAudit.Disk.Path
import SuiteAudit.Disk.SourceFile
import SuiteAudit.Document.Basic
import SuiteAudit.Document.Coverage
import SuiteAudit.Document.Page
import SuiteAudit.Document.Title
import SuiteAudit.Failure
import SuiteAudit.Log.Record
import SuiteAudit.Log.Setup
import SuiteAudit.Log.Template
import SuiteAudit.Main
import SuiteAudit.Maintainability.Guide
import SuiteAudit.Maintainability.Level
import SuiteAudit.Maintainability.Metrics
import SuiteAudit.Maintainability.Opportunity
import SuiteAudit.Maintainability.Report
import SuiteAudit.Maintainability.Smell
import SuiteAudit.Number.Binary64
import SuiteAudit.Number.Decimal
import SuiteAudit.Number.Extended
import SuiteAudit.Payload.Artifact
import SuiteAudit.Payload.Display
import SuiteAudit.Payload.Document
import SuiteAudit.Payload.Failure
import SuiteAudit.Payload.Json
import SuiteAudit.Payload.Maintainability
import SuiteAudit.Payload.Moment
import SuiteAudit.Payload.Quality
import SuiteAudit.Payload.Reader
import SuiteAudit.Payload.Refactoring
import SuiteAudit.Payload.Run
import SuiteAudit.Payload.Source
import SuiteAudit.Proofs.Diff.Applies
import SuiteAudit.Proofs.Diff.Common
import SuiteAudit.Proofs.Diff.Hunks
import SuiteAudit.Proofs.Diff.Patch
import SuiteAudit.Proofs.Diff.Reading
import SuiteAudit.Proofs.Disk.Beside
import SuiteAudit.Proofs.Disk.Copying
import SuiteAudit.Proofs.Disk.Work
import SuiteAudit.Proofs.Disk.Written
import SuiteAudit.Proofs.Document.BlockComment
import SuiteAudit.Proofs.Document.CommentAbove
import SuiteAudit.Proofs.Document.CommentOpening
import SuiteAudit.Proofs.Document.DocumentedCases
import SuiteAudit.Proofs.Document.FileNames
import SuiteAudit.Proofs.Document.SuiteHooks
import SuiteAudit.Proofs.Document.TestCount
import SuiteAudit.Proofs.Literal.Denotation
import SuiteAudit.Proofs.Literal.Doubled
import SuiteAudit.Proofs.Literal.Escaped
import SuiteAudit.Proofs.Literal.LongText
import SuiteAudit.Proofs.Literal.OtherWaits
import SuiteAudit.Proofs.Literal.Pairing
import SuiteAudit.Proofs.Literal.TextLines
import SuiteAudit.Proofs.Literal.WaitCall
import SuiteAudit.Proofs.Maintainability.Index
import SuiteAudit.Proofs.Maintainability.LocalSmells
import SuiteAudit.Proofs.Maintainability.MissingComments
import SuiteAudit.Proofs.Maintainability.RankedOpportunities
import SuiteAudit.Proofs.Number.Nearest
import SuiteAudit.Proofs.Number.Order
import SuiteAudit.Proofs.Pattern.Captures
import SuiteAudit.Proofs.Pattern.FixedText
import SuiteAudit.Proofs.Pattern.Scan
import SuiteAudit.Proofs.Pattern.Splice
import SuiteAudit.Proofs.Pattern.Takes
import SuiteAudit.Proofs.Quality.Independence
import SuiteAudit.Proofs.Quality.Lanes
import SuiteAudit.Proofs.Quality.LookUps
import SuiteAudit.Proofs.Quality.Registries
import SuiteAudit.Proofs.Quality.RegistryLaws
import SuiteAudit.Proofs.Quality.Scores
import SuiteAudit.Proofs.Quality.SharedVariables
import SuiteAudit.Proofs.Ranking
import SuiteAudit.Proofs.Refactoring.CasesKept
import SuiteAudit.Proofs.Refactoring.CommentLines
import SuiteAudit.Proofs.Refactoring.Complete
import SuiteAudit.Proofs.Refactoring.Declared
import SuiteAudit.Proofs.Refactoring.Definitions
import SuiteAudit.Proofs.Refactoring.Explained
import SuiteAudit.Proofs.Refactoring.FreeNames
import SuiteAudit.Proofs.Refactoring.GivenName
import SuiteAudit.Proofs.Refactoring.HelperBraces
import SuiteAudit.Proofs.Refactoring.Imports
import SuiteAudit.Proofs.Refactoring.InScope
import SuiteAudit.Proofs.Refactoring.KeptBytes
import SuiteAudit.Proofs.Refactoring.LineEnds
import SuiteAudit.Proofs.Refactoring.MergedContexts
import SuiteAudit.Proofs.Refactoring.NamedInStep
import SuiteAudit.Proofs.Refactoring.NamedValues
import SuiteAudit.Proofs.Refactoring.NamedWaits
import SuiteAudit.Proofs.Refactoring.Naming
import SuiteAudit.Proofs.Refactoring.NewNames
import SuiteAudit.Proofs.Refactoring.Recorded
import SuiteAudit.Proofs.Refactoring.RepeatedSteps
import SuiteAudit.Proofs.Refactoring.Replaced
import SuiteAudit.Proofs.Refactoring.Replacing
import SuiteAudit.Proofs.Refactoring.SecondPass
import SuiteAudit.Proofs.Refactoring.Selected
import SuiteAudit.Proofs.Refactoring.SharedNames
import SuiteAudit.Proofs.Refactoring.WaitsLeft
import SuiteAudit.Proofs.Run.Accounts
import SuiteAudit.Proofs.Run.BatchRun
import SuiteAudit.Proofs.Run.BatchTime
import SuiteAudit.Proofs.Run.FileWork
import SuiteAudit.Proofs.Run.Listed
import SuiteAudit.Proofs.Run.Phases
import SuiteAudit.Proofs.Run.Schedule
import SuiteAudit.Proofs.Run.Summaries
import SuiteAudit.Proofs.Run.WholeRun
import SuiteAudit.Proofs.Run.WorstFiles
import SuiteAudit.Proofs.Run.Writing
import SuiteAudit.Proofs.Source.CallLines
import SuiteAudit.Proofs.Source.CallsRead
import SuiteAudit.Proofs.Source.CaseCall
import SuiteAudit.Proofs.Source.CaseNames
import SuiteAudit.Proofs.Source.CutScan
import SuiteAudit.Proofs.Source.ExactScan
import SuiteAudit.Proofs.Source.Expectation
import SuiteAudit.Proofs.Source.NestedScans
import SuiteAudit.Proofs.Source.Obscure
import SuiteAudit.Proofs.Source.QuietLines
import SuiteAudit.Proofs.Source.QuotedCall
import SuiteAudit.Proofs.Source.Regions
import SuiteAudit.Proofs.Source.Renamed
import SuiteAudit.Proofs.Source.RenamedSplice
import SuiteAudit.Proofs.Source.RepeatedLines
import SuiteAudit.Proofs.Source.ReportedCalls
import SuiteAudit.Proofs.Source.Scanning
import SuiteAudit.Proofs.Source.StepCalls
import SuiteAudit.Proofs.Source.StepLines
import SuiteAudit.Proofs.Table
import SuiteAudit.Proofs.Text.Blanks
import SuiteAudit.Proofs.Text.FreshName
import SuiteAudit.Proofs.Text.Infix
import SuiteAudit.Proofs.Text.Lines
import SuiteAudit.Proofs.Text.Utf8
import SuiteAudit.Quality.Checks.Documentation
import SuiteAudit.Quality.Checks.Maintenance
import SuiteAudit.Quality.Checks.Naming
import SuiteAudit.Quality.Checks.Performance
import SuiteAudit.Quality.Checks.Structure
import SuiteAudit.Quality.Default
import SuiteAudit.Quality.Guide
import SuiteAudit.Quality.Registry
import SuiteAudit.Quality.Report
import SuiteAudit.Quality.Standard
import SuiteAudit.Raised
import SuiteAudit.Refactoring.Apply
import SuiteAudit.Refactoring.Change
import SuiteAudit.Refactoring.Comments
import SuiteAudit.Refactoring.Constants
import SuiteAudit.Refactoring.Context
import SuiteAudit.Refactoring.Guide
import SuiteAudit.Refactoring.Methods
import SuiteAudit.Refactoring.Proposal
import SuiteAudit.Refactoring.Suggestions
import SuiteAudit.Run.Artifact
import SuiteAudit.Run.Batch
import SuiteAudit.Run.Options
import SuiteAudit.Run.Pipeline
import SuiteAudit.Run.Report
import SuiteAudit.Run.Summary
import SuiteAudit.Source.Assertion
import SuiteAudit.Source.Block
import SuiteAudit.Source.Comment
import SuiteAudit.Source.Complexity
import SuiteAudit.Source.Duplicate
import SuiteAudit.Source.Language
import SuiteAudit.Source.Literal
import SuiteAudit.Source.Step
import SuiteAudit.Source.Style
import SuiteAudit.Source.Tag
import SuiteAudit.Table
import SuiteAudit.Text.Basic
import SuiteAudit.Text.Blank
import SuiteAudit.Text.CaseMap
import SuiteAudit.Text.FreshName
import SuiteAudit.Text.Markdown
import SuiteAudit.Text.Pattern
import SuiteAudit.Text.Printable
import SuiteAudit.Text.Quoted
import SuiteAudit.Text.Ranges
import SuiteAudit.Text.Utf8
import SuiteAudit.Text.WideLines
import SuiteAudit.Text.WordChar
import SuiteAudit.Timestamp.Basic
import SuiteAudit.Timestamp.Calendar
import SuiteAudit.Timestamp.Iso
