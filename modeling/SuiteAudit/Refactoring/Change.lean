import SuiteAudit.Text.Basic

/-! # Changes

What is proposed for one place of a file.
-/

namespace SuiteAudit

inductive ChangeKind where
  | extractConstant
  | extractMethod
  | simplifySelector
  | addComment
  | improveNaming
  deriving DecidableEq, Repr

namespace ChangeKind

def all : List ChangeKind :=
  [extractConstant, extractMethod, simplifySelector, addComment, improveNaming]

def name : ChangeKind → Text
  | extractConstant => "extract-constant"
  | extractMethod => "extract-method"
  | simplifySelector => "simplify-selector"
  | addComment => "add-comment"
  | improveNaming => "improve-naming"

/-- Whether the change gives a name to something that had none. -/
def isExtraction : ChangeKind → Bool
  | extractConstant | extractMethod => true
  | _ => false

end ChangeKind

structure Change where
  kind : ChangeKind
  line : Int
  description : Text
  before : Text
  after : Text
  deriving DecidableEq

end SuiteAudit
