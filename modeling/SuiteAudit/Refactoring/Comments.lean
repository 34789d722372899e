import SuiteAudit.Refactoring.Change
import SuiteAudit.Source.Comment
import SuiteAudit.Source.Literal

/-! # Missing comments

A line that should be explained and has no comment near gets one in front of it, at the same
indentation.
-/

namespace SuiteAudit.Comments

/-- The count that an assertion expects, group 1. -/
def countCall : Pattern :=
  .chain [.lit "toHaveCount(", .blanks, .group 1 .digits, .blanks, .lit ")"]

/-- The comment for a line of a kind. -/
def textFor (line : Text) : Obscurity → Text
  | .longWait =>
    let ms : Text := ((Literal.timeoutCall.find? line).map (·.group 1)).getD []
    "Wait " ++ ms ++ "ms for the operation to settle"
  | .bulkCount =>
    let count : Text := ((countCall.find? line).map (·.group 1)).getD "the expected number of"
    "Expect exactly " ++ count ++ " matching elements"
  | .pageEvaluate => "Run script in the page context"
  | .concurrent => "Run these async operations concurrently"
  | .selectorTimeout => "Wait for the element with an explicit timeout"
  | .positionalLocator => "Select the element by position in the list"

/-- The comment for a line, if it should be explained. -/
def generate? (line : Text) : Option Text := (Obscurity.ofLine? line).map (textFor line)

/-- The comment that the line at `index` lacks, if it does. -/
def missingAt? (lines : List Text) (index : Nat) (line : Text) : Option Text :=
  if hasNearbyComment lines index commentWindow then none else generate? (Text.trim line)

/-- The blanks in front of a line. -/
def indentation (line : Text) : Text := line.takeWhile Text.isBlank

def change (comment line : Text) (number : Nat) : Change where
  kind := .addComment
  line := number
  description := "Add explanatory comment"
  before := Text.trim line
  after := "// " ++ comment ++ "\n" ++ Text.trim line

/-- The lines from `index` on with their comments, and the changes, when `written` lines stand
before them in the new text. -/
def addFrom (lines : List Text) : Nat → Nat → List Text → List Text × List Change
  | _, _, [] => ([], [])
  | index, written, line :: rest =>
    match missingAt? lines index line with
    | none =>
      let (out, changes) := addFrom lines (index + 1) (written + 1) rest
      (line :: out, changes)
    | some comment =>
      let (out, changes) := addFrom lines (index + 1) (written + 2) rest
      ((indentation line ++ "// " ++ comment) :: line :: out,
        change comment line (written + 1) :: changes)

/-- A text with the comments that it lacks, and the changes. -/
def add (content : Text) : Text × List Change :=
  let lines := Text.lines content
  let (out, changes) := addFrom lines 0 0 lines
  (Text.joinLines out, changes)

end SuiteAudit.Comments
