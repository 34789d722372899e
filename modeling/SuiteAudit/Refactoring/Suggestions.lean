import SuiteAudit.Refactoring.Change
import SuiteAudit.Source.Literal
import SuiteAudit.Text.Quoted

/-! # Suggestions that leave the text as it is

Selectors that are hard to keep and variables with empty names are pointed out, with what could be
written instead.
-/

namespace SuiteAudit.Suggestions

/-! ### Selectors -/

/-- A stretch without single quotes. -/
def quoteFree : Pattern := .run true 0 (· != '\'')

/-- A locator with a selector of some form, group 1. -/
def locatorOf (selector : Pattern) : Pattern :=
  .chain [.lit "page.locator('", .group 1 selector, .lit "')"]

/-- The selectors that are hard to keep, with what should be done about them. -/
def selectorPatterns : List (Pattern × Text) :=
  [(locatorOf (.chain [quoteFree, .blanks1, quoteFree, .blanks1, quoteFree]),
     "Replace the multi-level CSS selector with a data-testid"),
   (locatorOf (.chain [quoteFree, .lit ":nth-child(", .run true 1 (· != ')'), .lit ")", quoteFree]),
     "Avoid nth-child; use a stable selector"),
   (locatorOf (.chain [quoteFree, .bracketed, .inLine, .bracketed, quoteFree]),
     "Simplify the multi-attribute selector")]

/-- A part of a selector that reads like a word. -/
def selectorWord : Pattern := .run true 1 fun c => c.isAlpha || c == '-'

/-- A test id made of the words of a selector. -/
def testIdFor (selector : Text) : Text :=
  Text.lower (Text.join "-" ((selectorWord.findAll selector).map (·.text)))

def selectorChange (content description : Text) (hit : Hit) : Change where
  kind := .simplifySelector
  line := Text.lineAt content hit.offset
  description := description
  before := hit.text
  after := "page.getByTestId('" ++ testIdFor (hit.group 1) ++ "')"

def selectorChanges (content : Text) : List Change :=
  selectorPatterns.flatMap fun p => (p.1.findAll content).map (selectorChange content p.2)

/-! ### Variables -/

/-- Empty names and better ones. -/
def namingFixes : List (Text × Text) :=
  [("data", "testData"), ("temp", "temporary"), ("res", "result"), ("elem", "element")]

/-- A declaration of a variable with an empty name, group 1. -/
def emptyName : Pattern :=
  .chain [.wordEdge, .words ["const", "let", "var"], .blanks1,
    .group 1 (.words (namingFixes.map (·.1))), .wordEdge]

def namingChange (content : Text) (hit : Hit) : Change :=
  let name := hit.group 1
  let better := (namingFixes.lookup name).getD []
  { kind := .improveNaming
    line := Text.lineAt content hit.offset
    description := "Rename " ++ Text.quoted name ++ " to " ++ Text.quoted better
    before := name
    after := better }

def namingChanges (content : Text) : List Change :=
  (emptyName.findAll content).map (namingChange content)

end SuiteAudit.Suggestions
