import SuiteAudit.Maintainability.Level
import SuiteAudit.Source.Comment
import SuiteAudit.Source.Duplicate
import SuiteAudit.Source.Literal
import SuiteAudit.Text.Quoted

/-! # Code smells

A smell is found on one line by one of six detectors; `smellsOfLine` runs them in order.  The only
detector that looks beyond its line is the one for missing comments, and it looks no further than
`commentWindow` lines.  A numeral that is too long to be read stops the search.
-/

namespace SuiteAudit

inductive SmellKind where
  | longTest
  | duplicateCode
  | complexLogic
  | poorNaming
  | missingComments
  | hardCodedValues
  deriving DecidableEq, Repr

namespace SmellKind

def all : List SmellKind :=
  [longTest, duplicateCode, complexLogic, poorNaming, missingComments, hardCodedValues]

def name : SmellKind → Text
  | longTest => "long-test"
  | duplicateCode => "duplicate-code"
  | complexLogic => "complex-logic"
  | poorNaming => "poor-naming"
  | missingComments => "missing-comments"
  | hardCodedValues => "hard-coded-values"

end SmellKind

structure Smell where
  kind : SmellKind
  line : Int
  description : Text
  severity : Level
  effort : Level
  deriving DecidableEq

namespace Smell

/-! ### What the detectors look for -/

/-- At least ten characters between two quotes of one kind. -/
def textIn (quote : Char) : Pattern :=
  .chain [.lit [quote], .run true 10 (· != quote), .lit [quote]]

def quotedText : Pattern := .either (textIn '"') (textIn '\'')

/-- Words that mark a quoted text as part of a test. -/
def testWords : List Text := ["test", "spec", "should", "expect"]

def hasHardCodedText (line : Text) : Bool :=
  (quotedText.findAll line).any fun hit => !testWords.any (Text.contains hit.text)

/-- A numeral of three digits or more that is a word of its own. -/
def longNumeral : Pattern := .chain [.wordEdge, .run true 3 Text.isDigit, .wordEdge]

/-- The numbers that need no name. -/
def allowedNumbers : List Nat := [1000, 5000, 10000, 30000]

def isMagic (n : Nat) : Bool := 100 < n && !allowedNumbers.elem n

/-- Whether one of some numerals is a magic number; those after the first one are not read. -/
def anyMagic : List Text → Except DigitLimit Bool
  | [] => .ok false
  | numeral :: rest => do
    if isMagic (← readNumeral numeral) then return true
    anyMagic rest

def hasMagicNumber (line : Text) : Except DigitLimit Bool :=
  anyMagic ((longNumeral.findAll line).map (·.text))

def quoteMark : Pattern := .one (Pattern.among "'\"")

def unquoted : Pattern := .run true 0 (Pattern.notAmong "'\"")

/-- Selectors with three levels, with a position among children, or with two attributes. -/
def complexSelectors : List Pattern :=
  [.chain [quoteMark, unquoted, .blanks1, unquoted, .blanks1, unquoted, quoteMark],
   .chain [quoteMark, unquoted, .lit ":nth-child(", .run true 1 (· != ')'), .lit ")", quoteMark],
   .chain [quoteMark, unquoted, .bracketed, .inLine, .bracketed, quoteMark]]

def hasComplexSelector (line : Text) : Bool :=
  (Text.contains line "locator" || line.elem '$') && complexSelectors.any (·.occursIn line)

/-- The declaration of a variable whose name, group 1, is one of `names`. -/
def declaration (names : List Text) : Pattern :=
  .chain [.wordEdge, .words ["const", "let", "var"], .blanks1, .group 1 (.words names), .wordEdge]

/-- Variable names that say nothing. -/
def vagueNames : List Text := ["data", "temp", "res", "elem"]

def vagueDeclaration : Pattern := declaration vagueNames

/-- The length that a line may have. -/
def maxLineLength : Nat := 120

/-! ### The detectors -/

def hardCodedText (line : Nat) : Smell :=
  ⟨.hardCodedValues, line, "Hard-coded string should be extracted into a constant", .medium, .low⟩

def longLine (line : Nat) : Smell :=
  ⟨.complexLogic, line, "Line exceeds " ++ Text.ofNat maxLineLength ++ " characters", .low, .low⟩

def magicNumber (line : Nat) : Smell :=
  ⟨.hardCodedValues, line, "Magic number should be a named constant", .medium, .low⟩

def complexSelector (line : Nat) : Smell :=
  ⟨.complexLogic, line, "Selector is overly complex; consider data-testid", .medium, .medium⟩

def missingComment (finding : CommentFinding) : Smell :=
  ⟨.missingComments, finding.line, finding.kind.description ++ " has no explanatory comment",
    .low, .low⟩

def vagueName (line : Nat) (name : Text) : Smell :=
  ⟨.poorNaming, line, "Variable name " ++ Text.quoted name ++ " is not descriptive", .low, .low⟩

end Smell

/-- The smells of the line at `index`, in the order of the detectors. -/
def smellsOfLine (lines : List Text) (index : Nat) (line : Text) :
    Except DigitLimit (List Smell) := do
  let trimmed := Text.trim line
  if isCommentLine trimmed then return []
  let number := index + 1
  let magic ← Smell.hasMagicNumber trimmed
  return (if Smell.hasHardCodedText trimmed then [Smell.hardCodedText number] else []) ++
    (if Smell.maxLineLength < line.length then [Smell.longLine number] else []) ++
    (if magic then [Smell.magicNumber number] else []) ++
    (if Smell.hasComplexSelector trimmed then [Smell.complexSelector number] else []) ++
    ((commentFindingAt? lines index line).map Smell.missingComment).toList ++
    ((Smell.vagueDeclaration.find? trimmed).map fun hit =>
      Smell.vagueName number (hit.group 1)).toList

/-- The smells of some lines, by line and then by detector. -/
def smellsIn (lines : List Text) : Except DigitLimit (List Smell) :=
  (lines.zipIdx.mapM fun p => smellsOfLine lines p.2 p.1).map List.flatten

def smellsOf (content : Text) : Except DigitLimit (List Smell) := smellsIn (Text.lines content)

end SuiteAudit
