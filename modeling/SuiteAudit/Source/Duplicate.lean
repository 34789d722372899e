import SuiteAudit.Table
import SuiteAudit.Text.Blank

/-! # Duplicated lines

A line is duplicated when another line of the file has the same text once the blanks around both are
gone.  Lines that are short or hold nothing but a comment do not count.
-/

namespace SuiteAudit

/-- How a line begins that holds nothing but a comment. -/
def commentStarts : List Text := ["//", "/*", "*"]

/-- Whether a trimmed line is nothing but a comment. -/
def isCommentLine (trimmed : Text) : Bool := Text.startsWithAny trimmed commentStarts

/-- The trimmed text of several lines, with their numbers. -/
structure DuplicateLine where
  text : Text
  lineNumbers : List Nat
  deriving DecidableEq

namespace DuplicateLine

def occurrences (d : DuplicateLine) : Nat := d.lineNumbers.length

/-- The length that a line must exceed by default. -/
def defaultMinLength : Int := 20

/-- Whether a trimmed line is compared with others. -/
def counts (minLength : Int) (trimmed : Text) : Bool :=
  minLength < trimmed.length && !isCommentLine trimmed

/-- The numbers of the lines that count, by their trimmed text in order of first occurrence. -/
def buckets (minLength : Int) (lines : List Text) : Table Text (List Nat) :=
  (lines.zipIdx 1).foldl
    (fun table p =>
      let trimmed := Text.trim p.1
      if counts minLength trimmed then
        Table.modify trimmed (fun old => old.getD [] ++ [p.2]) table
      else table)
    []

/-- The texts that at least `minOccurrences` lines share, in order of first occurrence. -/
def find (content : Text) (minOccurrences : Nat) (minLength : Int) : List DuplicateLine :=
  ((buckets minLength (Text.lines content)).filter fun p => minOccurrences ≤ p.2.length).map
    fun p => ⟨p.1, p.2⟩

/-- How many texts occur on two lines or more. -/
def count (content : Text) : Nat := (find content 2 defaultMinLength).length

end DuplicateLine
end SuiteAudit
