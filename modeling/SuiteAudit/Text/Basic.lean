/-! # Texts

A text is a list of characters, so that every law about one is a law about lists.  This module
holds the cuts and joins that the rest of the library is written in: lines (`Text.lines` and
`Text.joinLines` undo each other, `joinLines_lines`), pieces between separators, search for a
fixed text, and decimal numerals.
-/

namespace SuiteAudit

/-- A text, one entry per character. -/
abbrev Text := List Char

instance : Coe String Text := ⟨String.toList⟩

namespace Text

/-! ### Pieces and lines -/

/-- The pieces of a text between separators, one more than there are separators. -/
def splitOn (sep : Char) : Text → List Text
  | [] => [[]]
  | c :: rest =>
    match splitOn sep rest with
    | [] => [[c]]
    | piece :: pieces => if c = sep then [] :: piece :: pieces else (c :: piece) :: pieces

/-- Pieces written one after the other with `sep` between them. -/
def join (sep : Text) (pieces : List Text) : Text := List.intercalate sep pieces

/-- The lines of a text: only a line feed ends a line, and the last line may be empty. -/
def lines (t : Text) : List Text := splitOn '\n' t

/-- Lines written one after the other with a line feed between them. -/
def joinLines (ls : List Text) : Text := join ['\n'] ls

theorem splitOn_ne_nil (sep : Char) (t : Text) : splitOn sep t ≠ [] := by
  cases t with
  | nil => simp [splitOn]
  | cons c rest =>
    unfold splitOn
    split
    · simp
    · split <;> simp

theorem join_cons_cons (sep a b : Text) (rest : List Text) :
    join sep (a :: b :: rest) = a ++ sep ++ join sep (b :: rest) := by
  simp [join, List.intercalate, List.intersperse]

theorem join_singleton (sep a : Text) : join sep [a] = a := by
  simp [join, List.intercalate]

theorem join_splitOn (sep : Char) (t : Text) : join [sep] (splitOn sep t) = t := by
  induction t with
  | nil => simp [splitOn, join_singleton]
  | cons c rest ih =>
    unfold splitOn
    cases h : splitOn sep rest with
    | nil => exact absurd h (splitOn_ne_nil sep rest)
    | cons piece pieces =>
      rw [h] at ih
      by_cases hc : c = sep
      · simp only [hc, if_true, join_cons_cons]
        simp [ih]
      · simp only [hc, if_false]
        cases pieces with
        | nil => rw [join_singleton] at ih ⊢; rw [ih]
        | cons q qs => rw [join_cons_cons] at ih ⊢; simp [← ih]

theorem joinLines_lines (t : Text) : joinLines (lines t) = t := join_splitOn '\n' t

/-- Some lines under a condition. -/
def linesIf (condition : Bool) (ls : List Text) : List Text := if condition then ls else []

/-- How often a character occurs. -/
def countChar (c : Char) (t : Text) : Nat := t.count c

/-! ### Fixed texts -/

def startsWith (t start : Text) : Bool := start.isPrefixOf t

def startsWithAny (t : Text) (starts : List Text) : Bool := starts.any t.startsWith

def endsWith (t ending : Text) : Bool := ending.isSuffixOf t

def endsWithAny (t : Text) (endings : List Text) : Bool := endings.any t.endsWith

/-- The offset of the first place where `needle` stands in a text. -/
def find? (needle : Text) : Text → Option Nat
  | [] => if needle.isEmpty then some 0 else none
  | c :: rest =>
    if needle.isPrefixOf (c :: rest) then some 0 else (find? needle rest).map (· + 1)

/-- Whether `needle` stands somewhere in a text. -/
def contains (t needle : Text) : Bool := (find? needle t).isSome

/-- How many copies of a non-empty `needle` stand in a text side by side; `skip` characters are
passed over first. -/
def countFrom (needle : Text) : Nat → Text → Nat
  | _, [] => 0
  | skip + 1, _ :: rest => countFrom needle skip rest
  | 0, c :: rest =>
    if needle.isPrefixOf (c :: rest) then countFrom needle (needle.length - 1) rest + 1
    else countFrom needle 0 rest

/-- The number of copies of `needle` that do not overlap, counted from the left. -/
def countOf (needle t : Text) : Nat := countFrom needle 0 t

/-- A text without `start`, when it begins with it. -/
def dropStart (start t : Text) : Text :=
  if start.isPrefixOf t then t.drop start.length else t

/-- A text without `ending`, when it ends with it. -/
def dropEnding (ending t : Text) : Text :=
  if ending.isSuffixOf t then t.take (t.length - ending.length) else t

/-- A text without the characters at its end that satisfy `p`. -/
def trimEndWhile (p : Char → Bool) (t : Text) : Text := (t.reverse.dropWhile p).reverse

/-- Every occurrence of the character `c` written as `by'`. -/
def replaceChar (c : Char) (by' t : Text) : Text :=
  t.flatMap fun d => if d = c then by' else [d]

theorem replaceChar_cons_self (c : Char) (by' t : Text) :
    replaceChar c by' (c :: t) = by' ++ replaceChar c by' t := by
  simp [replaceChar]

theorem replaceChar_cons {c d : Char} (h : d ≠ c) (by' t : Text) :
    replaceChar c by' (d :: t) = d :: replaceChar c by' t := by
  simp [replaceChar, h]

theorem replaceChar_append (c : Char) (by' s t : Text) :
    replaceChar c by' (s ++ t) = replaceChar c by' s ++ replaceChar c by' t :=
  List.flatMap_append

theorem replaceChar_of_not_mem {c : Char} {t : Text} (h : c ∉ t) (by' : Text) :
    replaceChar c by' t = t := by
  induction t with
  | nil => rfl
  | cons d t ih =>
      obtain ⟨hd, ht⟩ := not_or.mp fun h' => h (List.mem_cons.mpr h')
      rw [replaceChar_cons (Ne.symm hd), ih ht]

/-! ### Numerals -/

/-- The decimal numeral of a natural number. -/
def ofNat (n : Nat) : Text := Nat.toDigits 10 n

/-- The decimal numeral of an integer. -/
def ofInt : Int → Text
  | .ofNat n => ofNat n
  | .negSucc n => '-' :: ofNat (n + 1)

/-- A numeral filled up with zeros in front to at least `width` characters. -/
def padZero (width : Nat) (t : Text) : Text := List.replicate (width - t.length) '0' ++ t

/-- The numeral of `n` to base sixteen with at least `width` digits. -/
def ofNatHex (width n : Nat) : Text := padZero width (Nat.toDigits 16 n)

/-! ### Order -/

/-- Whether a text comes before or at another one, character by character. -/
def le : Text → Text → Bool
  | [], _ => true
  | _ :: _, [] => false
  | c :: s, d :: t => if c = d then le s t else c.toNat < d.toNat

end Text
end SuiteAudit
