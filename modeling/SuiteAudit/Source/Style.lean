import SuiteAudit.Text.Blank
import SuiteAudit.Text.WideLines

/-! # Style of a source file

What a file uses to indent and to quote, so that lines added to it look like its own.
-/

namespace SuiteAudit

inductive Indent where
  | tabs
  | spaces (n : Nat)
  deriving DecidableEq, Repr

def Indent.text : Indent → Text
  | tabs => "tabs"
  | spaces n => Text.ofNat n ++ " spaces"

inductive Quotes where
  | single
  | double
  deriving DecidableEq, Repr

namespace Quotes

def name : Quotes → Text
  | single => "single"
  | double => "double"

def mark : Quotes → Char
  | single => '\''
  | double => '"'

/-- A character inside quotes. -/
def escapeChar (q : Quotes) (c : Char) : Text :=
  if c = '\\' then ['\\', '\\'] else if c = q.mark then ['\\', q.mark] else [c]

theorem mark_ne_backslash (q : Quotes) : q.mark ≠ '\\' := by
  cases q <;> decide

theorem escapeChar_of_special {q : Quotes} {c : Char} (h : c = '\\' ∨ c = q.mark) :
    q.escapeChar c = ['\\', c] := by
  rcases h with rfl | rfl
  · rfl
  · simp [escapeChar, q.mark_ne_backslash]

theorem escapeChar_of_plain {q : Quotes} {c : Char} (h : ¬(c = '\\' ∨ c = q.mark)) :
    q.escapeChar c = [c] := by
  obtain ⟨hb, hq⟩ := not_or.mp h
  rw [escapeChar, if_neg hb, if_neg hq]

/-- A text as a literal: the backslash and the quote are written with a backslash in front. -/
def literal (q : Quotes) (value : Text) : Text :=
  q.mark :: value.flatMap q.escapeChar ++ [q.mark]

end Quotes

structure CodeStyle where
  indent : Indent
  quotes : Quotes
  deriving DecidableEq, Repr

namespace CodeStyle

/-- The spaces that the lines of a text begin with, where there are any. -/
def leadingSpaces (lines : List Text) : List Nat :=
  (lines.map fun line => (line.takeWhile (· = ' ')).length).filter (0 < ·)

/-- Tabs as soon as one line begins with a tab, else the smallest indentation by spaces. -/
def indentOf (source : Text) : Indent :=
  let lines := (Text.wideLines source).map (·.takeWhile (!Text.endsLine ·))
  if lines.any fun line => line.head? = some '\t' then .tabs
  else .spaces ((leadingSpaces lines).min?.getD 2)

/-- The quotes that occur more often, the single ones by preference. -/
def quotesOf (source : Text) : Quotes :=
  if Text.countChar '\'' source < Text.countChar '"' source then .double else .single

def detect (source : Text) : CodeStyle := ⟨indentOf source, quotesOf source⟩

end CodeStyle
end SuiteAudit
