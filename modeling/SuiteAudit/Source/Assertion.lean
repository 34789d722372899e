import SuiteAudit.Text.Pattern

/-! # Assertions

A line that expects something gives a sentence.  For five matchers the sentence is made from the
target and the expected value of the call; any other expectation is given as it is written.
-/

namespace SuiteAudit

/-- An assertion in words, with the parts of the call where they are known. -/
structure Assertion where
  text : Text
  target : Option Text := none
  matcher : Option Text := none
  expected : Option Text := none
  deriving DecidableEq

namespace Assertion

def isRecognized (a : Assertion) : Bool := a.matcher.isSome

/-- The matchers whose meaning is known. -/
inductive Matcher where
  | toBe
  | toContain
  | toBeVisible
  | toHaveText
  | toHaveCount
  deriving DecidableEq, Repr

namespace Matcher

def all : List Matcher := [toBe, toContain, toBeVisible, toHaveText, toHaveCount]

def name : Matcher → Text
  | toBe => "toBe"
  | toContain => "toContain"
  | toBeVisible => "toBeVisible"
  | toHaveText => "toHaveText"
  | toHaveCount => "toHaveCount"

def ofName? (t : Text) : Option Matcher := all.find? (·.name = t)

/-- The sentence for a target and an expected value. -/
def sentence (target expected : Text) : Matcher → Text
  | toBe => target ++ " should equal " ++ expected
  | toContain => target ++ " should contain " ++ expected
  | toBeVisible => target ++ " should be visible"
  | toHaveText => target ++ " should have text " ++ expected
  | toHaveCount => target ++ " should have " ++ expected ++ " matching elements"

end Matcher

/-- A piece of an argument: a character other than a parenthesis, or a pair of parentheses with none
inside. -/
def argumentPiece : Pattern :=
  .either (.one (Pattern.notAmong "()"))
    (.chain [.lit "(", .run true 0 (Pattern.notAmong "()"), .lit ")"])

/-- An expectation: its target is group 1, its matcher group 2, the expected value group 3. -/
def expectCall : Pattern :=
  .chain [.lit "expect(", .group 1 (.seq argumentPiece (.many argumentPiece)), .lit ").",
    .group 2 (.seq (.optional (.lit "not.")) .word), .lit "(", .group 3 (.many argumentPiece),
    .lit ")"]

/-- A line that is no call of the known form, without the `await` in front. -/
def fallbackText (line : Text) : Text := Text.dropStart "await " (Text.trim line)

/-- The assertion on a line, if the line expects something. -/
def onLine? (line : Text) : Option Assertion :=
  if !Text.contains line "expect(" then none
  else match expectCall.find? line with
    | none => some { text := fallbackText line }
    | some hit =>
      match Matcher.ofName? (hit.group 2) with
      | none => some { text := Text.trim line }
      | some m =>
        let target := Text.trim (hit.group 1)
        let expected := Text.trim (hit.group 3)
        some {
          text := m.sentence target expected
          target := some target
          matcher := some m.name
          expected := if expected.isEmpty then none else some expected }

end Assertion

/-- The assertions of a block in order. -/
def assertionsOf (content : Text) : List Assertion :=
  (Text.lines content).filterMap Assertion.onLine?

end SuiteAudit
