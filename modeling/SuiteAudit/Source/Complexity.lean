import SuiteAudit.Number.Binary64
import SuiteAudit.Source.Block

/-! # Complexity of a text

Nesting, conditionals, loops and asynchronous operations are counted and weighed.  The score is a
number of tenths between 0 and 100, so that it is exact.
-/

namespace SuiteAudit

inductive ComplexityLevel where
  | low
  | medium
  | high
  deriving DecidableEq, Repr

namespace ComplexityLevel

def all : List ComplexityLevel := [low, medium, high]

def name : ComplexityLevel → Text
  | low => "low"
  | medium => "medium"
  | high => "high"

end ComplexityLevel

/-- The counts that a score is made of. -/
structure Complexity where
  maxNesting : Nat
  conditionals : Nat
  loops : Nat
  asyncOps : Nat
  deriving DecidableEq

namespace Complexity

def callOf (name : Text) : Pattern := .chain [.wordEdge, .lit name, .blanks, .lit "("]

def wordOf (name : Text) : Pattern := .chain [.wordEdge, .lit name, .wordEdge]

def conditionalPattern : Pattern :=
  .oneOf [callOf "if", wordOf "else", wordOf "switch", wordOf "case"]

def loopPattern : Pattern := .oneOf [callOf "for", callOf "while", wordOf "forEach"]

def asyncPattern : Pattern := .oneOf [wordOf "await", .lit ".then(", .lit ".catch("]

/-- The largest running brace count over some lines that follow the count `depth`, and `deepest`. -/
def deepestFrom : Int → Int → List Text → Int
  | _, deepest, [] => deepest
  | depth, deepest, line :: rest =>
    deepestFrom (depth + netBraces line) (max deepest (depth + netBraces line)) rest

/-- The largest number of braces that are open after a line. -/
def nestingOf (content : Text) : Nat := (deepestFrom 0 0 (Text.lines content)).toNat

def ofText (content : Text) : Complexity where
  maxNesting := nestingOf content
  conditionals := (conditionalPattern.findAll content).length
  loops := (loopPattern.findAll content).length
  asyncOps := (asyncPattern.findAll content).length

/-- The score in tenths: 20 for a level of nesting up to 100, 5 for a conditional up to 50, 10 for a
loop up to 50, 3 for an asynchronous operation up to 30, and 100 in all. -/
def tenths (c : Complexity) : Nat :=
  min 100 (min (20 * c.maxNesting) 100 + min (5 * c.conditionals) 50 + min (10 * c.loops) 50 +
    min (3 * c.asyncOps) 30)

/-- The score between 0 and 10. -/
def score (c : Complexity) : Binary64 := Binary64.ofRatio c.tenths 10

def level (c : Complexity) : ComplexityLevel :=
  if c.tenths ≤ 30 then .low else if c.tenths ≤ 70 then .medium else .high

/-- The weight of a text by which two versions of it are compared: two for a level of nesting, one
for a conditional, two for a loop. -/
def weight (c : Complexity) : Nat := 2 * c.maxNesting + c.conditionals + 2 * c.loops

end Complexity
end SuiteAudit
