import SuiteAudit.Source.Block
import SuiteAudit.Source.Tag

/-! # Titles and descriptions

What a file and its test cases are about: the comment that opens the file, the comments above its
blocks, or failing these its name and the words in it.
-/

namespace SuiteAudit.Document

/-! ### Names of files -/

/-- The part of a path after its last slash. -/
def baseName (path : Text) : Text := ((Text.splitOn '/' path).getLast?).getD []

/-- The ending that marks a test file, or any ending of letters. -/
def suffixPattern : Pattern :=
  .either
    (.chain [.lit ".", .words ["spec", "test"],
      .optional (.chain [.lit ".", .run true 1 fun c => c.isAlpha]), .textEnd])
    (.chain [.lit ".", .run true 1 fun c => c.isAlpha, .textEnd])

/-- The name of a test file without its ending. -/
def stemOf (path : Text) : Text := suffixPattern.replaceAll (fun _ => []) (baseName path)

/-- The non-empty pieces between characters of a class. -/
def piecesBy (isGap : Char → Bool) : Text → List Text
  | [] => []
  | c :: rest =>
    let pieces := piecesBy isGap rest
    if isGap c then pieces
    else match rest with
      | [] => [[c]]
      | d :: _ =>
        if isGap d then [c] :: pieces
        else match pieces with
          | [] => [[c]]
          | p :: ps => (c :: p) :: ps

def capitalized : Text → Text
  | [] => []
  | c :: rest => Text.upper [c] ++ rest

/-- The words of the name of a file, each with a capital. -/
def titleFromPath (path : Text) : Text :=
  let isGap (c : Char) : Bool := c == '-' || c == '_' || Text.isBlank c
  Text.join " " ((piecesBy isGap (stemOf path)).map capitalized)

/-! ### The comment that opens a file -/

/-- Any number of blanks, a line feed, more blanks and a star. -/
def starOnNextLine : List Pattern := [.blanks, .lit "\n", .blanks, .lit "*", .blanks]

/-- The first line of the comment that opens a file, group 1. -/
def headerTitle : Pattern :=
  .chain ([.textStart, .blanks, .lit "/**"] ++ starOnNextLine ++
    [.group 1 (.run true 1 Pattern.isNotLineFeed)])

/-- The lines after the first of the comment that opens a file, group 1. -/
def headerBody : Pattern :=
  .chain ([.textStart, .blanks, .lit "/**"] ++ starOnNextLine ++
    [.run true 1 Pattern.isNotLineFeed] ++ starOnNextLine ++
    [.group 1 (.run false 1 (· != '*')), .blanks, .lit "*/"])

/-- The title of a file: that of its opening comment, the name of its first suite, or its name. -/
def titleOf (content path : Text) : Text :=
  match headerTitle.find? content with
  | some hit => Text.trim (hit.group 1)
  | none =>
    match Opening.suite.pattern.find? content with
    | some hit => hit.group Opening.nameGroup
    | none => titleFromPath path

/-- A line of a comment without its stars. -/
def commentLine (line : Text) : Text :=
  Text.trim ((Text.trim line).dropWhile (· = '*'))

def genericDescription : Text := "End-to-end test suite"

/-- What a file mentions, in a sentence. -/
def featureSummary (content : Text) : Text :=
  match featuresOf content with
  | [] => genericDescription
  | features => genericDescription ++ " covering " ++ Text.join ", " features

/-- Texts that are not empty, with spaces between them. -/
def joinWords (ts : List Text) : Text := Text.join " " (ts.filter fun t => !t.isEmpty)

/-- The description of a file: the body of its opening comment, or what it mentions. -/
def descriptionOf (content : Text) : Text :=
  match headerBody.find? content with
  | none => featureSummary content
  | some hit =>
    let text := joinWords ((Text.lines (hit.group 1)).map commentLine)
    if text.isEmpty then featureSummary content else text

/-! ### The comment above a line -/

def isSlashComment (line : Text) : Bool := Text.startsWith (Text.trim line) "//"

/-- The text of a line comment. -/
def slashText (line : Text) : Text := Text.trim ((Text.trim line).drop 2)

/-- The text of one line of a block comment. -/
def blockText (line : Text) : Text :=
  commentLine
    (Text.dropEnding "*/" (Text.dropStart "/*" (Text.dropStart "/**" (Text.trim line))))

/-- The lines of a block comment from its last line up, to the one that opens it. -/
def blockUp : List Text → List Text
  | [] => []
  | line :: above =>
    if Text.startsWith (Text.trim line) "/*" then [line] else line :: blockUp above

/-- A text unless it is empty. -/
def nonEmpty? (t : Text) : Option Text := if t.isEmpty then none else some t

/-- The comment at the end of some lines, given from the last one up. -/
def commentUp? (above : List Text) : Option Text :=
  match above.takeWhile isSlashComment with
  | [] =>
    match above with
    | [] => none
    | last :: _ =>
      if Text.endsWith (Text.trim last) "*/" then
        nonEmpty? (joinWords ((blockUp above).reverse.map blockText))
      else none
  | slashes => nonEmpty? (joinWords (slashes.reverse.map slashText))

/-- The comment directly above a line, counted from one. -/
def commentAbove? (lines : List Text) (line : Nat) : Option Text :=
  commentUp? (lines.take (line - 1)).reverse

/-- What a test case is about: the comment above it, its name if that says what should happen, or a
sentence with its name. -/
def caseDescription (name : Text) (lines : List Text) (line : Nat) : Text :=
  match commentAbove? lines line with
  | some comment => comment
  | none =>
    if Text.contains (Text.lower name) "should" then name
    else "Verifies that " ++ name ++ " works as expected"

end SuiteAudit.Document
