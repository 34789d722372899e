import SuiteAudit.Text.Printable

/-! # Quoted display of a text

A message shows a text between quotes.  The quotes are single unless the text holds a single quote
and no double one; the quote, the backslash and every character that would not show as itself are
escaped.
-/

namespace SuiteAudit.Text

/-- The quote that needs the fewest escapes, the single one by preference. -/
def displayQuote (t : Text) : Char :=
  if t.contains ['\''] && !t.contains ['"'] then '"' else '\''

/-- A hidden character by its code point, in the shortest of three widths that holds it. -/
def hiddenEscape (c : Char) : Text :=
  if c.toNat < 0x100 then "\\x" ++ ofNatHex 2 c.toNat
  else if c.toNat < 0x10000 then "\\u" ++ ofNatHex 4 c.toNat
  else "\\U" ++ ofNatHex 8 c.toNat

/-- One character of a text that is shown between quotes `quote`. -/
def displayChar (quote c : Char) : Text :=
  if c = quote ∨ c = '\\' then ['\\', c]
  else if c = '\n' then "\\n"
  else if c = '\r' then "\\r"
  else if c = '\t' then "\\t"
  else if isPrintable c then [c]
  else hiddenEscape c

/-- A text as messages show it. -/
def quoted (t : Text) : Text :=
  let quote := displayQuote t
  quote :: t.flatMap (displayChar quote) ++ [quote]

/-- A text with an escape for every character beyond the first 128. -/
def asciiOnly (t : Text) : Text := t.flatMap fun c => if c.toNat < 0x80 then [c] else hiddenEscape c

end SuiteAudit.Text
