import SuiteAudit.Payload.Reader
import SuiteAudit.Source.Assertion
import SuiteAudit.Source.Comment
import SuiteAudit.Source.Duplicate
import SuiteAudit.Source.Step

/-! # Payloads of what is found in a source text -/

namespace SuiteAudit

open Payload

namespace Step

def toJson (s : Step) : Json :=
  .obj [("action", .str s.action.name), ("target", Json.ofOption .str s.target),
    ("data", Json.ofOption .str s.data), ("expected", Json.ofOption .str s.expected),
    ("line", Json.ofOption .int s.line)]

def ofJson : Reader Step := recordOf fun m =>
  Step.mk <$> required "action" (choice StepAction.all StepAction.name) m
    <*> defaulted "target" (nullable text) none m
    <*> defaulted "data" (nullable text) none m
    <*> defaulted "expected" (nullable text) none m
    <*> defaulted "line" (nullable whole) none m

end Step

namespace Assertion

def toJson (a : Assertion) : Json :=
  .obj [("text", .str a.text), ("target", Json.ofOption .str a.target),
    ("matcher", Json.ofOption .str a.matcher), ("expected", Json.ofOption .str a.expected)]

def ofJson : Reader Assertion := recordOf fun m =>
  Assertion.mk <$> required "text" Payload.text m
    <*> defaulted "target" (nullable Payload.text) none m
    <*> defaulted "matcher" (nullable Payload.text) none m
    <*> defaulted "expected" (nullable Payload.text) none m

end Assertion

def DuplicateLine.toJson (d : DuplicateLine) : Json :=
  .obj [("text", .str d.text), ("lineNumbers", .arr (d.lineNumbers.map .nat))]

def CommentFinding.toJson (f : CommentFinding) : Json :=
  .obj [("line", .nat f.line), ("kind", .str f.kind.name),
    ("description", .str f.kind.description), ("text", .str f.text)]

end SuiteAudit
