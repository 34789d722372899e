import SuiteAudit.Text.Basic

/-! # Lines by every line end

Where a text is compared line by line for people, every character that some writer uses to end a
line does end it: line feed, carriage return (with the line feed after it), vertical tab, form
feed, the three information separators, the next-line control and the two wide separators.
`wideLines_flatten` says that nothing is lost.
-/

namespace SuiteAudit.Text

/-- Whether a character ends a line by itself. -/
def endsLine (c : Char) : Bool :=
  (0xA ≤ c.toNat && c.toNat ≤ 0xD) || (0x1C ≤ c.toNat && c.toNat ≤ 0x1E) || c.toNat == 0x85 ||
    c.toNat == 0x2028 || c.toNat == 0x2029

/-- Puts a character in front of the first of some lines. -/
def consLine (c : Char) : List Text → List Text
  | [] => [[c]]
  | l :: ls => (c :: l) :: ls

/-- The lines of a text, each with the end that closes it; only the last may have none. -/
def wideLines : Text → List Text
  | [] => []
  | '\r' :: '\n' :: rest => ['\r', '\n'] :: wideLines rest
  | c :: rest => if endsLine c then [c] :: wideLines rest else consLine c (wideLines rest)

theorem consLine_flatten (c : Char) (ls : List Text) :
    (consLine c ls).flatten = c :: ls.flatten := by
  cases ls <;> simp [consLine]

theorem wideLines_flatten (t : Text) : (wideLines t).flatten = t := by
  fun_induction wideLines t with
  | case1 => rfl
  | case2 rest ih => simp [ih]
  | case3 c rest h he ih => simp [ih]
  | case4 c rest h he ih => simp [consLine_flatten, ih]

end SuiteAudit.Text
