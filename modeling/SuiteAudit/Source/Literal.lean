import SuiteAudit.Number.Decimal
import SuiteAudit.Text.CaseMap
import SuiteAudit.Text.Pattern

/-! # Hard-coded values

Fixed waits and quoted texts that read like fixture data are values that should have a name.  This
module recognises them and chooses the name that they ask for.
-/

namespace SuiteAudit

namespace Literal

/-! ### Where the values stand -/

/-- A fixed wait with a number of milliseconds, group 1. -/
def timeoutCall : Pattern :=
  .chain [.lit "waitForTimeout(", .blanks, .group 1 .digits, .blanks, .lit ")"]

/-- The least length of a quoted text that may be test data. -/
def minDataLength : Nat := 15

def isPlainQuoted (c : Char) : Bool := Pattern.notAmong "'\"\n" c

/-- A quoted text of some length, group 2, with no quote in it. -/
def longText : Pattern :=
  .chain [.group 1 (.one (Pattern.among "'\"")), .group 2 (.run true minDataLength isPlainQuoted),
    .sameAs 1]

/-! ### Test data -/

/-- How a text begins that selects elements of a page. -/
def selectorStarts : List Text := ["[", "#", ".", "/", ">"]

def looksLikeSelector (value : Text) : Bool :=
  Text.startsWithAny value selectorStarts || Text.contains value "data-testid"

/-- Whether a character is a given small letter, in either case; a long s counts as an s. -/
def isLetter (letter c : Char) : Bool :=
  c == letter || c == letter.toUpper || (letter == 's' && c.toNat == 0x17F)

/-- A word in letters of either case. -/
def anyCase (word : Text) : Pattern := .chain (word.map fun letter => .one (isLetter letter))

/-- The forms of a text that reads like test data. -/
def dataHints : List Pattern :=
  [.chain [.lit "@", .inLine, .lit ".com", .textEnd],
   .chain [.textStart, anyCase "test", .inLine, anyCase "user", .textEnd],
   anyCase "password",
   .chain [.textStart, anyCase "pet", .inLine, anyCase "name", .textEnd],
   .chain [.textStart, anyCase "test", .inLine, anyCase "data", .textEnd]]

/-- Whether a text reads like fixture data and not like a selector. -/
def looksLikeTestData (value : Text) : Bool :=
  !looksLikeSelector value && dataHints.any (·.occursIn value)

/-! ### Names -/

/-- The least fixed wait that gets a name, in milliseconds. -/
def minNamedTimeout : Nat := 1000

def timeoutNames : List (Nat × Text) :=
  [(1000, "SHORT_TIMEOUT"), (3000, "MEDIUM_TIMEOUT"), (5000, "LONG_TIMEOUT"),
   (10000, "VERY_LONG_TIMEOUT"), (30000, "ANALYSIS_TIMEOUT")]

/-- The name that a number of milliseconds asks for, or that its numeral asks for. -/
def timeoutNameAs (ms : Rat) (numeral : Text) : Text :=
  ((timeoutNames.find? fun p => (p.1 : Rat) = ms).map (·.2)).getD ("TIMEOUT_" ++ numeral ++ "MS")

def timeoutName (ms : Int) : Text := timeoutNameAs ms (Text.ofInt ms)

/-- The name that a piece of test data asks for. -/
def dataName (value : Text) : Text :=
  let lowered := Text.lower value
  if value.elem '@' then "TEST_EMAIL"
  else if Text.contains lowered "password" then "TEST_PASSWORD"
  else if Text.contains lowered "user" then "TEST_USERNAME"
  else if Text.contains lowered "pet" then "TEST_PET_NAME"
  else "TEST_DATA_CONSTANT"

end Literal
end SuiteAudit
