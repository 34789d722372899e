import SuiteAudit.Text.Blank
import SuiteAudit.Text.WordChar

/-! # Patterns

A pattern describes a stretch of a text.  Its alternatives are tried in order, and a repetition
tries the longest run first (or the shortest, when it is not greedy), so that a pattern picks one
stretch at a place: the first that lets the rest of the pattern succeed.  `Pattern.tryAt` is that
search with the rest of the pattern as its last argument; `Pattern.matchAt`, `find?`, `findAll` and
`replaceAll` are what the library uses.
-/

namespace SuiteAudit

/-- A place in a text: the character before it, what follows it, and its offset. -/
structure Place where
  before : Option Char
  rest : Text
  offset : Nat

namespace Place

def start (t : Text) : Place := ⟨none, t, 0⟩

/-- The place behind `t`, which stands here. -/
def advance (place : Place) (t : Text) : Place :=
  ⟨t.getLast?.or place.before, place.rest.drop t.length, place.offset + t.length⟩

end Place

/-- The first `length` characters of a text, which are cut out only when they are asked for. -/
structure Stretch where
  rest : Text
  length : Nat

def Stretch.text (s : Stretch) : Text := s.rest.take s.length

/-- The stretches that numbered groups took, the latest first. -/
abbrev Groups := List (Nat × Stretch)

inductive Pattern where
  /-- The empty stretch. -/
  | nothing
  /-- A fixed text. -/
  | exactly (t : Text)
  /-- One character of a class. -/
  | one (p : Char → Bool)
  /-- At least `least` characters of a class, as many as possible or as few. -/
  | run (greedy : Bool) (least : Nat) (p : Char → Bool)
  /-- One pattern and then another. -/
  | seq (first second : Pattern)
  /-- One pattern, or else another. -/
  | either (first second : Pattern)
  /-- A pattern any number of times, as often as possible; each time takes some character. -/
  | many (body : Pattern)
  /-- A pattern whose stretch is kept under a number. -/
  | group (number : Nat) (body : Pattern)
  /-- The stretch that a group took before. -/
  | sameAs (number : Nat)
  /-- The empty stretch at a place of a certain kind. -/
  | here (test : Option Char → Text → Bool)

namespace Pattern

variable {α : Type}

/-! ### Matching at a place -/

/-- Takes as many characters of a class as the rest allows, then fewer. -/
def greedyRun (p : Char → Bool) (rest : Place → Option α) :
    Nat → Option Char → Text → Nat → Option α
  | least, before, [], offset => if least = 0 then rest ⟨before, [], offset⟩ else none
  | least, before, c :: t, offset =>
    (if p c then greedyRun p rest (least - 1) (some c) t (offset + 1) else none).or
      (if least = 0 then rest ⟨before, c :: t, offset⟩ else none)

/-- Takes as few characters of a class as the rest allows, then more. -/
def lazyRun (p : Char → Bool) (rest : Place → Option α) :
    Nat → Option Char → Text → Nat → Option α
  | least, before, [], offset => if least = 0 then rest ⟨before, [], offset⟩ else none
  | least, before, c :: t, offset =>
    (if least = 0 then rest ⟨before, c :: t, offset⟩ else none).or
      (if p c then lazyRun p rest (least - 1) (some c) t (offset + 1) else none)

/-- Repeats a step at most `limit` times, as often as possible. -/
def repeatStep (step : Place → Groups → (Place → Groups → Option α) → Option α)
    (rest : Place → Groups → Option α) : Nat → Place → Groups → Option α
  | 0, place, groups => rest place groups
  | limit + 1, place, groups =>
    (step place groups fun next groups' =>
      if place.offset < next.offset then repeatStep step rest limit next groups' else none).or
      (rest place groups)

/-- The first stretch of the pattern at a place for which the rest succeeds. -/
def tryAt : Pattern → Place → Groups → (Place → Groups → Option α) → Option α
  | nothing, place, groups, rest => rest place groups
  | exactly t, place, groups, rest =>
    if t.isPrefixOf place.rest then rest (place.advance t) groups else none
  | one p, place, groups, rest =>
    match place.rest with
    | [] => none
    | c :: t => if p c then rest ⟨some c, t, place.offset + 1⟩ groups else none
  | run true least p, place, groups, rest =>
    greedyRun p (rest · groups) least place.before place.rest place.offset
  | run false least p, place, groups, rest =>
    lazyRun p (rest · groups) least place.before place.rest place.offset
  | seq first second, place, groups, rest =>
    first.tryAt place groups fun next groups' => second.tryAt next groups' rest
  | either first second, place, groups, rest =>
    (first.tryAt place groups rest).or (second.tryAt place groups rest)
  | many body, place, groups, rest =>
    repeatStep (fun p g k => body.tryAt p g k) rest place.rest.length place groups
  | group number body, place, groups, rest =>
    body.tryAt place groups fun next groups' =>
      rest next ((number, ⟨place.rest, next.offset - place.offset⟩) :: groups')
  | sameAs number, place, groups, rest =>
    match groups.lookup number with
    | none => none
    | some s =>
      if s.text.isPrefixOf place.rest then rest (place.advance s.text) groups else none
  | here test, place, groups, rest =>
    if test place.before place.rest then rest place groups else none

/-! ### Building patterns -/

/-- Patterns one after the other. -/
def chain : List Pattern → Pattern
  | [] => nothing
  | [p] => p
  | p :: ps => seq p (chain ps)

/-- The first of some patterns that fits. -/
def oneOf : List Pattern → Pattern
  | [] => here fun _ _ => false
  | [p] => p
  | p :: ps => either p (oneOf ps)

def optional (p : Pattern) : Pattern := either p nothing

def lit (t : Text) : Pattern := exactly t

/-- One of some fixed texts, the first that fits. -/
def words (ts : List Text) : Pattern := oneOf (ts.map exactly)

/-- Any number of blanks. -/
def blanks : Pattern := run true 0 Text.isBlank

/-- At least one blank. -/
def blanks1 : Pattern := run true 1 Text.isBlank

/-- At least one word character. -/
def word : Pattern := run true 1 Text.isWordChar

/-- At least one decimal digit. -/
def digits : Pattern := run true 1 Text.isDigit

def isNotLineFeed (c : Char) : Bool := c != '\n'

/-- The rest of the line or less, as much as possible. -/
def inLine : Pattern := run true 0 isNotLineFeed

/-- The rest of the line or less, as little as possible. -/
def inLineShort : Pattern := run false 0 isNotLineFeed

/-- A place where a word begins or ends. -/
def wordEdge : Pattern :=
  here fun before rest => before.any Text.isWordChar != rest.head?.any Text.isWordChar

/-- The start of the text. -/
def textStart : Pattern := here fun before _ => before.isNone

/-- The end of the text, or the line feed that ends it. -/
def textEnd : Pattern := here fun _ rest => rest = [] ∨ rest = ['\n']

/-- The start of a line. -/
def lineStart : Pattern := here fun before _ => before.isNone ∨ before = some '\n'

/-- A pair of square brackets with something between them. -/
def bracketed : Pattern := chain [lit "[", run true 1 (· != ']'), lit "]"]

/-- The characters of a text as a class. -/
def among (t : Text) (c : Char) : Bool := t.elem c

/-- The characters that a text does not hold, as a class. -/
def notAmong (t : Text) (c : Char) : Bool := !t.elem c

end Pattern

/-- A stretch of a text that a pattern took. -/
structure Hit where
  offset : Nat
  text : Text
  groups : List (Nat × Text)

namespace Hit

def group? (hit : Hit) (number : Nat) : Option Text := hit.groups.lookup number

/-- The stretch that a group took, empty if it took none. -/
def group (hit : Hit) (number : Nat) : Text := (hit.group? number).getD []

end Hit

namespace Pattern

/-! ### Searching a text -/

/-- The stretch that the pattern takes at a place. -/
def matchAt (p : Pattern) (place : Place) : Option Hit :=
  p.tryAt place [] fun next groups =>
    some ⟨place.offset, place.rest.take (next.offset - place.offset),
      groups.map fun g => (g.1, g.2.text)⟩

/-- The stretch that the pattern takes at the start of a text. -/
def matchStart (p : Pattern) (t : Text) : Option Hit := p.matchAt (Place.start t)

/-- The first stretch in the rest of a text. -/
def findFrom (p : Pattern) : Option Char → Nat → Text → Option Hit
  | before, offset, [] => p.matchAt ⟨before, [], offset⟩
  | before, offset, c :: t =>
    (p.matchAt ⟨before, c :: t, offset⟩).or (findFrom p (some c) (offset + 1) t)

def find? (p : Pattern) (t : Text) : Option Hit := p.findFrom none 0 t

/-- Whether the pattern takes a stretch somewhere in a text. -/
def occursIn (p : Pattern) (t : Text) : Bool := (p.find? t).isSome

/-- The stretches in the rest of a text, after `skip` characters that the last one took. -/
def findAllFrom (p : Pattern) : Nat → Option Char → Nat → Text → List Hit
  | _, _, _, [] => []
  | skip + 1, _, offset, c :: t => findAllFrom p skip (some c) (offset + 1) t
  | 0, before, offset, c :: t =>
    match p.matchAt ⟨before, c :: t, offset⟩ with
    | none => findAllFrom p 0 (some c) (offset + 1) t
    | some hit =>
      if hit.text.isEmpty then findAllFrom p 0 (some c) (offset + 1) t
      else hit :: findAllFrom p (hit.text.length - 1) (some c) (offset + 1) t

/-- The non-empty stretches of a text from left to right, each after the end of the one before. -/
def findAll (p : Pattern) (t : Text) : List Hit := p.findAllFrom 0 none 0 t

/-- The rest of a text with its stretches replaced, after `skip` characters already replaced. -/
def replaceFrom (p : Pattern) (by' : Hit → Text) : Nat → Option Char → Nat → Text → Text
  | _, _, _, [] => []
  | skip + 1, _, offset, c :: t => replaceFrom p by' skip (some c) (offset + 1) t
  | 0, before, offset, c :: t =>
    match p.matchAt ⟨before, c :: t, offset⟩ with
    | none => c :: replaceFrom p by' 0 (some c) (offset + 1) t
    | some hit =>
      if hit.text.isEmpty then c :: replaceFrom p by' 0 (some c) (offset + 1) t
      else by' hit ++ replaceFrom p by' (hit.text.length - 1) (some c) (offset + 1) t

/-- A text with each of its stretches written as `by'` says. -/
def replaceAll (p : Pattern) (by' : Hit → Text) (t : Text) : Text := p.replaceFrom by' 0 none 0 t

end Pattern

namespace Text

/-- The number of the line, counted from one, on which an offset lies. -/
def lineAt (t : Text) (offset : Nat) : Nat := countChar '\n' (t.take offset) + 1

/-- The number of the line on which an offset lies; a negative one counts from the end. -/
def lineAtOffset (t : Text) : Int → Nat
  | .ofNat offset => lineAt t offset
  | .negSucc below => lineAt t (t.length - (below + 1))

end Text
end SuiteAudit
