import SuiteAudit.Text.Pattern

/-! # Lines that need a comment

Six kinds of line should be explained.  Such a line is a finding unless it ends in a comment or a
line close to it is part of one.
-/

namespace SuiteAudit

/-- What makes a line need an explanation. -/
inductive Obscurity where
  | longWait
  | bulkCount
  | pageEvaluate
  | concurrent
  | selectorTimeout
  | positionalLocator
  deriving DecidableEq, Repr

namespace Obscurity

/-- The kinds in the order in which a line is tried for them. -/
def all : List Obscurity :=
  [longWait, bulkCount, pageEvaluate, concurrent, selectorTimeout, positionalLocator]

def name : Obscurity → Text
  | longWait => "long-wait"
  | bulkCount => "bulk-count"
  | pageEvaluate => "page-evaluate"
  | concurrent => "concurrent"
  | selectorTimeout => "selector-timeout"
  | positionalLocator => "positional-locator"

def description : Obscurity → Text
  | longWait => "Long fixed wait"
  | bulkCount => "Element count assertion"
  | pageEvaluate => "Script executed in page context"
  | concurrent => "Concurrent operations"
  | selectorTimeout => "Selector wait with explicit timeout"
  | positionalLocator => "Positional locator"

def pattern : Obscurity → Pattern
  | longWait =>
    .chain [.lit "waitForTimeout(", .blanks, .run true 4 Text.isDigit, .blanks, .lit ")"]
  | bulkCount =>
    .chain [.lit "expect(", .inLine, .lit ").toHaveCount(", .blanks, .digits, .blanks, .lit ")"]
  | pageEvaluate => .lit "page.evaluate("
  | concurrent => .lit "Promise.all("
  | selectorTimeout => .chain [.lit "waitForSelector(", .inLine, .lit "timeout"]
  | positionalLocator => .chain [.lit "locator(", .inLine, .lit ").nth("]

/-- The first kind that a line is of. -/
def ofLine? (line : Text) : Option Obscurity := all.find? fun o => o.pattern.occursIn line

end Obscurity

/-- Whether a line is part of a comment. -/
def isCommentMarker (line : Text) : Bool :=
  let trimmed := Text.trim line
  Text.startsWithAny trimmed ["//", "/*", "*"] || Text.contains trimmed "*/"

/-- Whether two slashes stand in a text that follows a character; those of an address, which follow
a colon, do not count. -/
def slashesAfter (before : Char) : Text → Bool
  | [] => false
  | c :: rest => (before != ':' && Text.startsWith (c :: rest) "//") || slashesAfter c rest

/-- Whether a line has code with a comment after it. -/
def hasTrailingComment (line : Text) : Bool :=
  match Text.trimStart line with
  | [] => false
  | c :: rest => slashesAfter c rest

/-- How many lines above and below are looked at by default. -/
def commentWindow : Nat := 2

/-- Whether one of the lines within `window` of the line at `index`, itself apart, is part of a
comment. -/
def markerNear (lines : List Text) (index window : Nat) : Bool :=
  ((lines.drop (index + 1)).take window).any isCommentMarker ||
    ((lines.take index).drop (index - window)).any isCommentMarker

/-- Whether the line at `index` ends in a comment or has one near. -/
def hasNearbyComment (lines : List Text) (index window : Nat) : Bool :=
  (lines[index]?).any hasTrailingComment || markerNear lines index window

/-- A line that should be explained and is not. -/
structure CommentFinding where
  line : Nat
  kind : Obscurity
  text : Text
  deriving DecidableEq

/-- The finding for the line at `index`, if there is one. -/
def commentFindingAt? (lines : List Text) (index : Nat) (line : Text) : Option CommentFinding :=
  match Obscurity.ofLine? line with
  | none => none
  | some kind =>
    if hasNearbyComment lines index commentWindow then none
    else some ⟨index + 1, kind, Text.trim line⟩

/-- The findings among some lines. -/
def commentFindingsIn (lines : List Text) : List CommentFinding :=
  lines.zipIdx.filterMap fun p => commentFindingAt? lines p.2 p.1

/-- The lines of a text that should be explained and are not. -/
def commentFindings (content : Text) : List CommentFinding := commentFindingsIn (Text.lines content)

end SuiteAudit
