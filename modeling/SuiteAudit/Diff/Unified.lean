import SuiteAudit.Diff.Matching
import SuiteAudit.Text.WideLines

/-! # Unified diffs

A diff is a list of hunks.  Each shows the lines that were taken away and put in, with three lines
of context, and says where it lies in both texts.  Lines are cut at every line end and shown without
their line feed.
-/

namespace SuiteAudit.Diff

inductive EditKind where
  | equal
  | replace
  | delete
  | insert
  deriving DecidableEq, Repr

/-- What becomes of a stretch of old lines. -/
structure Edit where
  kind : EditKind
  oldLo : Nat
  oldHi : Nat
  newLo : Nat
  newHi : Nat
  deriving DecidableEq, Repr

/-- The edit between two common stretches, if there is anything between them. -/
def gapEdit (oldLo oldHi newLo newHi : Nat) : List Edit :=
  if oldLo < oldHi ∧ newLo < newHi then [⟨.replace, oldLo, oldHi, newLo, newHi⟩]
  else if oldLo < oldHi then [⟨.delete, oldLo, oldHi, newLo, newHi⟩]
  else if newLo < newHi then [⟨.insert, oldLo, oldHi, newLo, newHi⟩]
  else []

/-- The edits from two places on, over the common stretches that follow and up to the ends. -/
def editsFrom (oldEnd newEnd : Nat) : Nat → Nat → List Common → List Edit
  | i, j, [] => gapEdit i oldEnd j newEnd
  | i, j, c :: rest =>
    gapEdit i c.old j c.new ++ [⟨.equal, c.old, c.old + c.size, c.new, c.new + c.size⟩] ++
      editsFrom oldEnd newEnd (c.old + c.size) (c.new + c.size) rest

def edits (old new : List Text) : List Edit :=
  editsFrom old.length new.length 0 0 (commonStretches old new)

/-! ### Hunks -/

/-- The lines of context around a change. -/
def context : Nat := 3

/-- The last lines of an edit without changes. -/
def Edit.keepEnd (e : Edit) : Edit :=
  if e.kind = .equal then
    { e with oldLo := max e.oldLo (e.oldHi - context), newLo := max e.newLo (e.newHi - context) }
  else e

/-- The first lines of an edit without changes. -/
def Edit.keepStart (e : Edit) : Edit :=
  if e.kind = .equal then
    { e with oldHi := min e.oldHi (e.oldLo + context), newHi := min e.newHi (e.newLo + context) }
  else e

/-- Edits with no more than the context before the first change and after the last. -/
def trimEdits : List Edit → List Edit
  | [] => []
  | [e] => [e.keepEnd.keepStart]
  | e :: rest =>
    match rest.reverse with
    | [] => [e.keepEnd]
    | last :: between => e.keepEnd :: (last.keepStart :: between).reverse

/-- A hunk, unless it shows no change. -/
def hunkOf (group : List Edit) : List (List Edit) :=
  if group.all fun e => e.kind = .equal then [] else [group]

/-- Divides edits into hunks where more than twice the context is unchanged; `group` is the hunk
that has begun. -/
def groupEdits : List Edit → List Edit → List (List Edit)
  | group, [] => hunkOf group
  | group, e :: rest =>
    if e.kind = .equal ∧ 2 * context < e.oldHi - e.oldLo then
      (group ++ [e.keepStart]) :: groupEdits [e.keepEnd] rest
    else groupEdits (group ++ [e]) rest

def hunks (old new : List Text) : List (List Edit) := groupEdits [] (trimEdits (edits old new))

/-! ### The text of a diff -/

/-- Where a stretch of lines lies: its first line, and its length unless it is one line.  An empty
stretch is named by the line before it. -/
def rangeText (lo hi : Nat) : Text :=
  if hi - lo = 1 then Text.ofNat (lo + 1)
  else Text.ofNat (if hi - lo = 0 then lo else lo + 1) ++ "," ++ Text.ofNat (hi - lo)

def slice (lines : List Text) (lo hi : Nat) : List Text := (lines.drop lo).take (hi - lo)

/-- Lines with a mark in front of each. -/
def marked (mark : Char) (lines : List Text) : List Text := lines.map (mark :: ·)

def editLines (old new : List Text) (e : Edit) : List Text :=
  match e.kind with
  | .equal => marked ' ' (slice old e.oldLo e.oldHi)
  | .replace => marked '-' (slice old e.oldLo e.oldHi) ++ marked '+' (slice new e.newLo e.newHi)
  | .delete => marked '-' (slice old e.oldLo e.oldHi)
  | .insert => marked '+' (slice new e.newLo e.newHi)

/-- The head of a hunk, which says where it lies in both texts. -/
def hunkHead (hunk : List Edit) : Text :=
  let oldLo := (hunk.head?.map (·.oldLo)).getD 0
  let newLo := (hunk.head?.map (·.newLo)).getD 0
  let oldHi := (hunk.getLast?.map (·.oldHi)).getD 0
  let newHi := (hunk.getLast?.map (·.newHi)).getD 0
  "@@ -" ++ rangeText oldLo oldHi ++ " +" ++ rangeText newLo newHi ++ " @@"

def hunkLines (old new : List Text) (hunk : List Edit) : List Text :=
  hunkHead hunk :: hunk.flatMap (editLines old new)

/-- The unified diff of two versions of a file, empty when they are equal. -/
def unified (path before after : Text) : Text :=
  if before = after then []
  else
    let old := Text.wideLines before
    let new := Text.wideLines after
    match (hunks old new).flatMap (hunkLines old new) with
    | [] => []
    | body =>
      Text.joinLines ((("--- a/" ++ path : Text) :: ("+++ b/" ++ path : Text) :: body).map
        (Text.dropEnding "\n"))

end SuiteAudit.Diff
