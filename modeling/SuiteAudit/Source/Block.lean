import SuiteAudit.Text.Pattern
import SuiteAudit.Text.Quoted

/-! # Blocks of a test file

A test file is read as lines.  A block begins on a line that holds an opening call, and ends on the
line on which the running count of braces comes back to zero; it is dropped when the count falls
below zero or the file ends first.  `scan` gives every such region in order, blocks and drops alike,
so that each opening line lies in exactly one region.  Braces in strings and comments count like any
other.
-/

namespace SuiteAudit

inductive BlockKind where
  | suite
  | case
  | hook
  deriving DecidableEq, Repr

def BlockKind.label : BlockKind → Text
  | suite => "suite"
  | case => "case"
  | hook => "hook"

/-- A call that opens a block, with the kind of the block. -/
structure Opening where
  pattern : Pattern
  kind : BlockKind

namespace Opening

/-- The group of an opening call that holds the quoted name. -/
def nameGroup : Nat := 2

def quoteMarks : Text := "'\"\x60"

/-- A parenthesis and a quoted text after it, which is the name of what the call opens. -/
def quotedName : Pattern :=
  .chain [.lit "(", .blanks, .group 1 (.one (Pattern.among quoteMarks)),
    .group nameGroup .inLineShort, .sameAs 1]

/-- A suite: `describe`, with or without modifiers after it. -/
def suite : Opening where
  pattern := .chain
    [.wordEdge, .lit "describe", .many (.chain [.lit ".", .word]), quotedName]
  kind := .suite

/-- A test case: `test` or `it`, with or without one of four modifiers. -/
def case : Opening where
  pattern := .chain
    [.wordEdge, .words ["test", "it"],
      .optional (.chain [.lit ".", .words ["only", "skip", "fixme", "slow"]]), quotedName]
  kind := .case

/-- A hook by its name. -/
def hook (name : Text) : Opening where
  pattern := .chain [.wordEdge, .lit name, .lit "("]
  kind := .hook

/-- The name that an opening call gives: the quoted one, or the call itself without its parenthesis
where no name is quoted. -/
def nameOf (hit : Hit) : Text :=
  if (hit.group nameGroup).isEmpty then Text.trim (Text.trimEndWhile (· == '(') hit.text)
  else hit.group nameGroup

/-- The name of the block that opens on a line, if one does. -/
def onLine? (opening : Opening) (line : Text) : Option Text :=
  (opening.pattern.find? line).map nameOf

/-- Whether a block opens on a line. -/
def isOn (opening : Opening) (line : Text) : Bool := opening.pattern.occursIn line

/-- How many such calls stand in a text. -/
def countIn (opening : Opening) (content : Text) : Nat := (opening.pattern.findAll content).length

end Opening

/-- Opening minus closing braces of a line. -/
def netBraces (line : Text) : Int :=
  (Text.countChar '\x7b' line : Int) - Text.countChar '\x7d' line

/-- Consecutive lines of a file under the name of the call on the first of them. -/
structure Block where
  name : Text
  kind : BlockKind
  startLine : Int
  lines : List Text
  deriving DecidableEq

namespace Block

def content (b : Block) : Text := Text.joinLines b.lines

def lineCount (b : Block) : Nat := b.lines.length

def endLine (b : Block) : Int := b.startLine + b.lineCount - 1

/-- The lines between the first and the last. -/
def bodyLines (b : Block) : List Text := b.lines.tail.dropLast

end Block

/-- Why a region is no block. -/
inductive DropReason where
  /-- A closing brace came before its opener. -/
  | overClosed
  /-- The file ended first. -/
  | unterminated
  deriving DecidableEq, Repr

/-- A stretch of lines that an opening call begins. -/
inductive Region where
  | block (b : Block)
  | dropped (b : Block) (reason : DropReason)
  deriving DecidableEq

namespace Region

def block? : Region → Option Block
  | block b => some b
  | dropped .. => none

/-- The lines of the region, whether it is a block or not. -/
def span : Region → Block
  | block b => b
  | dropped b _ => b

/-- What is said about a region that was dropped. -/
def warning? : Region → Option Text
  | block _ => none
  | dropped b .overClosed =>
    some ("Dropping " ++ b.kind.label ++ " block " ++ Text.quoted b.name ++ " at line " ++
      Text.ofInt b.startLine ++ ": closing brace without opener")
  | dropped b .unterminated =>
    some ("Dropping unterminated " ++ b.kind.label ++ " block " ++ Text.quoted b.name ++
      " opened at line " ++ Text.ofInt b.startLine)

end Region

/-- The blocks among some regions. -/
def blocksOf (regions : List Region) : List Block := regions.filterMap Region.block?

/-- The warnings about some regions. -/
def warningsOf (regions : List Region) : List Text := regions.filterMap Region.warning?

/-! ### The scan -/

/-- A region that has begun: its lines so far, their brace count and whether one of them opens a
brace. -/
structure OpenBlock where
  span : Block
  depth : Int
  seenBrace : Bool

namespace OpenBlock

/-- A region of one line. -/
def start (name : Text) (kind : BlockKind) (lineNo : Int) (line : Text) : OpenBlock :=
  ⟨⟨name, kind, lineNo, [line]⟩, netBraces line, line.elem '\x7b'⟩

/-- The region with one more line. -/
def add (o : OpenBlock) (line : Text) : OpenBlock :=
  ⟨⟨o.span.name, o.span.kind, o.span.startLine, o.span.lines ++ [line]⟩,
    o.depth + netBraces line, o.seenBrace || line.elem '\x7b'⟩

/-- The region if it ends with its last line. -/
def settle? (o : OpenBlock) : Option Region :=
  if o.depth < 0 then some (.dropped o.span .overClosed)
  else if o.seenBrace ∧ o.depth = 0 then some (.block o.span)
  else none

end OpenBlock

/-- The regions of some lines, the first of which has the number `lineNo`, when a region may be
open before them. -/
def scanFrom (opening : Opening) : Int → Option OpenBlock → List Text → List Region
  | _, none, [] => []
  | _, some o, [] => [.dropped o.span .unterminated]
  | lineNo, state, line :: rest =>
    let now := match state with
      | some o => some (o.add line)
      | none => (opening.onLine? line).map fun name => .start name opening.kind lineNo line
    match now with
    | none => scanFrom opening (lineNo + 1) none rest
    | some o =>
      match o.settle? with
      | some region => region :: scanFrom opening (lineNo + 1) none rest
      | none => scanFrom opening (lineNo + 1) (some o) rest

/-- The regions of some lines that begin with the line number `firstLine`. -/
def scan (opening : Opening) (firstLine : Int) (lines : List Text) : List Region :=
  scanFrom opening firstLine none lines

/-- The regions of test cases in a text. -/
def caseRegions (content : Text) (firstLine : Int) : List Region :=
  scan .case firstLine (Text.lines content)

/-- The test cases of a text, numbered from `firstLine`. -/
def casesFrom (firstLine : Int) (content : Text) : List Block :=
  blocksOf (caseRegions content firstLine)

def casesOf (content : Text) : List Block := casesFrom 1 content

def countCaseCalls (content : Text) : Nat := Opening.case.countIn content

def countSuiteCalls (content : Text) : Nat := Opening.suite.countIn content

/-! ### Suites -/

/-- A suite with the regions of test cases in the lines after its first. -/
structure Suite where
  block : Block
  inner : List Region

namespace Suite

def ofBlock (b : Block) : Suite := ⟨b, scan .case (b.startLine + 1) b.lines.tail⟩

def cases (s : Suite) : List Block := blocksOf s.inner

end Suite

def suiteRegions (content : Text) : List Region := scan .suite 1 (Text.lines content)

/-- The suites of a text that lie in no other suite. -/
def suitesOf (content : Text) : List Suite := (blocksOf (suiteRegions content)).map Suite.ofBlock

/-! ### Hooks -/

inductive Hook where
  | beforeEach
  | afterEach
  | beforeAll
  | afterAll
  deriving DecidableEq, Repr

namespace Hook

def all : List Hook := [beforeEach, afterEach, beforeAll, afterAll]

def name : Hook → Text
  | beforeEach => "beforeEach"
  | afterEach => "afterEach"
  | beforeAll => "beforeAll"
  | afterAll => "afterAll"

def ofName? (t : Text) : Option Hook := all.find? (·.name = t)

/-- What is said about a name that no hook has. -/
def unsupported (t : Text) : Text := "Unsupported hook: " ++ t

end Hook

def hookRegions (content : Text) (h : Hook) : List Region :=
  scan (.hook h.name) 1 (Text.lines content)

def hooksOf (content : Text) (h : Hook) : List Block := blocksOf (hookRegions content h)

end SuiteAudit
