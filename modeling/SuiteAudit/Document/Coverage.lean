import SuiteAudit.Source.Tag
import SuiteAudit.Text.Pattern

/-! # What a file covers and uses

The features, user stories and requirements that a test file mentions, and the names that it imports
from the modules of the suite.
-/

namespace SuiteAudit

structure Coverage where
  features : List Text := []
  userStories : List Text := []
  requirements : List Text := []
  deriving DecidableEq

namespace Coverage

def isColon (c : Char) : Bool := c == '：' || c == ':'

/-- A user story, group 1. -/
def userStory : Pattern :=
  .seq
    (.either (.chain [.lit "用户故事", .one isColon, .blanks])
      (.chain [.wordEdge, .lit "As a", .optional (.lit "n"), .lit " "]))
    (.group 1 (.run true 1 (Pattern.notAmong "\n*")))

/-- A requirement, group 1. -/
def requirement : Pattern :=
  .chain [.either (.lit "_需求") (.seq (.lit "Requirement") (.optional (.lit "s"))), .one isColon,
    .blanks, .group 1 (.run true 1 (Pattern.notAmong "_\n"))]

/-- The first groups of a pattern in a text, trimmed and once each. -/
def mentioned (p : Pattern) (content : Text) : List Text :=
  ((p.findAll content).map fun hit => Text.trim (hit.group 1)).eraseDups

def ofText (content : Text) : Coverage :=
  ⟨featuresOf content, mentioned userStory content, mentioned requirement content⟩

end Coverage

namespace Dependency

/-- Names, group 1, that are imported from a module, group 2. -/
def importOf : Pattern :=
  .chain [.lit "import", .blanks, .lit "\x7b", .group 1 (.run true 0 (· != '\x7d')), .lit "\x7d",
    .blanks, .lit "from", .blanks, .one (Pattern.among "'\"\x60"),
    .group 2 (.run true 0 (Pattern.notAmong "'\"\x60")), .one (Pattern.among "'\"\x60")]

/-- The modules of a suite that test files are built on. -/
def sources : List Text := ["page-objects", "utils", "fixtures"]

/-- The names that a file imports from such modules, once each. -/
def namesIn (content : Text) : List Text :=
  ((importOf.findAll content).flatMap fun hit =>
    if sources.any (Text.contains (hit.group 2)) then
      ((Text.splitOn ',' (hit.group 1)).map Text.trim).filter fun name => !name.isEmpty
    else []).eraseDups

end Dependency
end SuiteAudit
