import SuiteAudit.Text.Ranges

/-! # Blanks

White space is the 29 characters that separate words: the controls from tab to carriage return and
from file to unit separator, the space, the next-line control and the spaces and separators of the
wider character set.  A byte order mark and a zero-width space are no blanks.
-/

namespace SuiteAudit.Text

/-- The code points of white space. -/
def blankRanges : Ranges :=
  [(0x9, 0xD), (0x1C, 0x20), (0x85, 0x85), (0xA0, 0xA0), (0x1680, 0x1680), (0x2000, 0x200A),
   (0x2028, 0x2029), (0x202F, 0x202F), (0x205F, 0x205F), (0x3000, 0x3000)]

def isBlank (c : Char) : Bool := inRanges blankRanges c.toNat

theorem isBlank_of_isWhitespace {c : Char} (h : c.isWhitespace = true) : isBlank c = true := by
  simp only [Char.isWhitespace, Bool.or_eq_true, decide_eq_true_eq] at h
  rcases h with ((h | h) | h) | h <;> subst h <;> decide

/-- A text without the blanks in front. -/
def trimStart (t : Text) : Text := t.dropWhile isBlank

/-- A text without the blanks at its end. -/
def trimEnd (t : Text) : Text := trimEndWhile isBlank t

/-- A text without the blanks around it. -/
def trim (t : Text) : Text := trimEnd (trimStart t)

/-- Whether a blank may stand around a numeral: the four separators among the controls may not. -/
def isSpace (c : Char) : Bool := isBlank c && !inRanges [(0x1C, 0x1F)] c.toNat

/-- A text without the spaces around it. -/
def trimSpaces (t : Text) : Text := trimEndWhile isSpace (t.dropWhile isSpace)

end SuiteAudit.Text
