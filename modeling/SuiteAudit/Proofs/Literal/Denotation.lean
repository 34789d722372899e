import SuiteAudit.Proofs.Literal.LongText
import SuiteAudit.Source.Style

/-! # What a literal denotes

A literal between quotation marks denotes a sequence of code units of sixteen bits.  A backslash
begins an escape: a letter for a control, `x` and two digits, `u` and four digits or any number in
braces, a line end that stands for nothing, or any other character for itself.  Escapes by octal
digits are read under `legacy` only.  `readLiteral` gives what a literal denotes, if it is one.

A value that is written as a literal by `Quotes.literal` denotes that value
(`readLiteral_literal`).  The text between two marks denotes itself only when it holds no backslash;
each escape is longer than what it stands for (`length_lt_of_readLiteral_quote`). -/

namespace SuiteAudit
namespace Literal

/-! ### Code units -/

/-- The code units of a code point, one or a pair. -/
def codeUnits (n : Nat) : List Nat :=
  if n < 0x10000 then [n] else [0xD800 + (n - 0x10000) / 0x400, 0xDC00 + (n - 0x10000) % 0x400]

/-- The code units of a text. -/
def units (t : Text) : List Nat := t.flatMap fun c => codeUnits c.toNat

theorem units_cons (c : Char) (t : Text) : units (c :: t) = codeUnits c.toNat ++ units t := rfl

theorem units_append (s t : Text) : units (s ++ t) = units s ++ units t := List.flatMap_append

theorem length_codeUnits_pos (n : Nat) : 0 < (codeUnits n).length := by
  unfold codeUnits
  split <;> simp

theorem length_codeUnits_le (n : Nat) : (codeUnits n).length ≤ 2 := by
  unfold codeUnits
  split <;> simp

/-- A text has at least as many code units as characters. -/
theorem length_le_length_units : ∀ (t : Text), t.length ≤ (units t).length
  | [] => Nat.le_refl 0
  | c :: t => by
      have := length_codeUnits_pos c.toNat
      have := length_le_length_units t
      rw [units_cons, List.length_append, List.length_cons]
      omega

/-! ### Escapes -/

def hexDigit? (c : Char) : Option Nat :=
  if '0' ≤ c ∧ c ≤ '9' then some (c.toNat - 48)
  else if 'a' ≤ c ∧ c ≤ 'f' then some (c.toNat - 87)
  else if 'A' ≤ c ∧ c ≤ 'F' then some (c.toNat - 55)
  else none

/-- The number that some hexadecimal digits stand for. -/
def hexValue? (digits : Text) : Option Nat :=
  digits.foldlM (fun n c => (hexDigit? c).map (16 * n + ·)) 0

/-- The code unit with a fixed number of digits after a letter, and how many characters that is. -/
def hexEscape? (count : Nat) (t : Text) : Option (List Nat × Nat) :=
  if count ≤ t.length then (hexValue? (t.take count)).map ([·], count + 1) else none

/-- The code point in braces after a letter; `t` is what follows the opening brace. -/
def bracedEscape? (t : Text) : Option (List Nat × Nat) :=
  let digits := t.takeWhile fun c => (hexDigit? c).isSome
  if digits ≠ [] ∧ (t.drop digits.length).head? = some '\x7d' then
    (hexValue? digits).bind fun n =>
      if n ≤ 0x10FFFF then some (codeUnits n, digits.length + 3) else none
  else none

def isOctalDigit (c : Char) : Bool := '0' ≤ c && c ≤ '7'

def isDecimalDigit (c : Char) : Bool := '0' ≤ c && c ≤ '9'

/-- The octal number that begins with a digit: three digits up to 255, else two. -/
def octalEscape (c : Char) (t : Text) : List Nat × Nat :=
  let more := (t.take (if c ≤ '3' then 2 else 1)).takeWhile isOctalDigit
  ([(c :: more).foldl (fun n d => 8 * n + (d.toNat - 48)) 0], more.length + 1)

/-- An escape that begins with a decimal digit. -/
def digitEscape? (legacy : Bool) (c : Char) (t : Text) : Option (List Nat × Nat) :=
  if c = '0' ∧ t.head?.any isDecimalDigit = false then some ([0], 1)
  else if !legacy then none
  else if isOctalDigit c then some (octalEscape c t)
  else some ([c.toNat], 1)

/-- The characters that end a line of a program. -/
def endsSourceLine (c : Char) : Bool := Pattern.among ['\n', '\r', '\u2028', '\u2029'] c

def controlEscapes : List (Char × Nat) :=
  [('b', 8), ('t', 9), ('n', 10), ('v', 11), ('f', 12), ('r', 13)]

/-- The code units that an escape stands for and the number of its characters, where `t` is what
follows the backslash. -/
def escapeAt? (legacy : Bool) : Text → Option (List Nat × Nat)
  | [] => none
  | c :: t =>
    if c = 'x' then hexEscape? 2 t
    else if c = 'u' then
      if t.head? = some '\x7b' then bracedEscape? t.tail else hexEscape? 4 t
    else if isDecimalDigit c then digitEscape? legacy c t
    else if c = '\r' ∧ t.head? = some '\n' then some ([], 2)
    else if endsSourceLine c then some ([], 1)
    else some (((controlEscapes.lookup c).map ([·])).getD (codeUnits c.toNat), 1)

/-! ### Literals -/

/-- The code units up to the mark `q`, which has to be the last character, after `skip` characters
that an escape took. -/
def readBody (legacy : Bool) (q : Char) : Nat → Text → Option (List Nat)
  | _, [] => none
  | skip + 1, _ :: t => readBody legacy q skip t
  | 0, c :: t =>
    if c = q then if t = [] then some [] else none
    else if c = '\\' then
      (escapeAt? legacy t).bind fun p => (readBody legacy q p.2 t).map (p.1 ++ ·)
    else if c = '\n' ∨ c = '\r' then none
    else (readBody legacy q 0 t).map (codeUnits c.toNat ++ ·)

/-- What a text denotes as a literal, if it is one. -/
def readLiteral (legacy : Bool) : Text → Option (List Nat)
  | [] => none
  | q :: t => if isMark q then readBody legacy q 0 t else none

/-! ### Escapes are longer than what they stand for -/

/-- An escape lies within the text and has at least as many code units as it stands for. -/
def Bounded (t : Text) (p : List Nat × Nat) : Prop :=
  p.2 ≤ t.length ∧ p.1.length ≤ (units (t.take p.2)).length

theorem Bounded.of_length_le {t : Text} {p : List Nat × Nat} (hn : p.2 ≤ t.length)
    (hl : p.1.length ≤ p.2) : Bounded t p := by
  refine ⟨hn, Nat.le_trans hl ?_⟩
  have := length_le_length_units (t.take p.2)
  rwa [List.length_take_of_le hn] at this

theorem hexEscape?_bounded {count : Nat} {c : Char} {t : Text} {p : List Nat × Nat}
    (h : hexEscape? count t = some p) : Bounded (c :: t) p := by
  unfold hexEscape? at h
  split at h
  · next hc =>
    obtain ⟨n, -, rfl⟩ := Option.map_eq_some_iff.mp h
    exact .of_length_le (by simpa using hc) (by simp)
  · cases h

theorem bracedEscape?_bounded {c d : Char} {t : Text} {p : List Nat × Nat}
    (h : bracedEscape? t = some p) : Bounded (c :: d :: t) p := by
  simp only [bracedEscape?] at h
  split at h
  · next hb =>
    obtain ⟨n, -, hn⟩ := Option.bind_eq_some_iff.mp h
    split at hn
    · obtain rfl := Option.some.inj hn
      have hlt : (t.takeWhile fun c => (hexDigit? c).isSome).length < t.length := by
        refine Nat.lt_of_not_le fun hle => ?_
        rw [List.drop_of_length_le hle] at hb
        cases hb.2
      have := length_codeUnits_le n
      refine .of_length_le ?_ ?_ <;> simp only [List.length_cons] <;> omega
    · cases hn
  · cases h

theorem digitEscape?_bounded {legacy : Bool} {c : Char} {t : Text} {p : List Nat × Nat}
    (h : digitEscape? legacy c t = some p) : Bounded (c :: t) p := by
  unfold digitEscape? at h
  split at h
  · obtain rfl := Option.some.inj h
    exact .of_length_le (by simp) (by simp)
  · split at h
    · cases h
    · split at h <;> obtain rfl := Option.some.inj h
      · refine .of_length_le ?_ (by simp [octalEscape])
        simp only [octalEscape, List.length_cons, Nat.add_le_add_iff_right]
        exact Nat.le_trans (List.takeWhile_sublist _).length_le (List.take_sublist _ _).length_le
      · exact .of_length_le (by simp) (by simp)

theorem escapeAt?_bounded {legacy : Bool} : ∀ {t : Text} {p : List Nat × Nat},
    escapeAt? legacy t = some p → Bounded t p
  | [], _, h => by cases h
  | c :: t, p, h => by
      rw [escapeAt?] at h
      split at h
      · exact hexEscape?_bounded h
      · split at h
        · split at h
          · next hb =>
            cases t with
            | nil => cases hb
            | cons d t => exact bracedEscape?_bounded h
          · exact hexEscape?_bounded h
        · split at h
          · exact digitEscape?_bounded h
          · split at h
            · next hcr =>
              obtain rfl := Option.some.inj h
              cases t with
              | nil => cases hcr.2
              | cons d t => exact .of_length_le (by simp) (by simp)
            · split at h <;> obtain rfl := Option.some.inj h
              · exact .of_length_le (by simp) (by simp)
              · refine ⟨by simp, ?_⟩
                cases controlEscapes.lookup c with
                | none => simp [units]
                | some n => exact Nat.le_trans (length_codeUnits_pos c.toNat) (by simp [units])

/-! ### The text between two marks -/

/-- What stands between two marks denotes at most as many code units as it has, and fewer when it
holds a backslash. -/
theorem readBody_length {legacy : Bool} {q : Char} : ∀ (v : Text) (skip : Nat) {s : List Nat},
    q ∉ v → readBody legacy q skip (v ++ [q]) = some s →
    skip ≤ v.length ∧ s.length ≤ (units (v.drop skip)).length ∧
      ('\\' ∈ v.drop skip → s.length < (units (v.drop skip)).length)
  | [], 0, s, _, h => by
      obtain rfl : [] = s := by simpa [readBody] using h
      simp
  | [], skip + 1, s, _, h => by simp [readBody] at h
  | c :: v, skip + 1, s, hq, h => by
      have ih := readBody_length v skip (fun hv => hq (List.mem_cons_of_mem c hv)) h
      simpa using ih
  | c :: v, 0, s, hq, h => by
      have hc : c ≠ q := fun e => hq (by rw [e]; exact List.mem_cons_self)
      have hv : q ∉ v := fun hv => hq (List.mem_cons_of_mem c hv)
      rw [List.cons_append, readBody, if_neg hc] at h
      rw [List.drop_zero, units_cons, List.length_append]
      split at h
      · next hb =>
        obtain ⟨p, hp, h⟩ := Option.bind_eq_some_iff.mp h
        obtain ⟨s', hs', rfl⟩ := Option.map_eq_some_iff.mp h
        obtain ⟨hn, hle, -⟩ := readBody_length v p.2 hv hs'
        -- the escape and what follows it together are no longer than the rest
        have hb' := (escapeAt?_bounded hp).2
        rw [List.take_append_of_le_length hn] at hb'
        have e : (units v).length = (units (v.take p.2)).length + (units (v.drop p.2)).length := by
          rw [← List.length_append, ← units_append, List.take_append_drop]
        have := length_codeUnits_pos c.toNat
        rw [List.length_append]
        exact ⟨Nat.zero_le _, by omega, fun _ => by omega⟩
      · next hb =>
        split at h
        · cases h
        · obtain ⟨s', hs', rfl⟩ := Option.map_eq_some_iff.mp h
          obtain ⟨-, hle, hlt⟩ := readBody_length v 0 hv hs'
          rw [List.drop_zero] at hle hlt
          rw [List.length_append]
          refine ⟨Nat.zero_le _, by omega, fun hm => ?_⟩
          have := hlt ((List.mem_cons.mp hm).resolve_left (Ne.symm hb))
          omega

theorem length_lt_of_readLiteral_quote {legacy : Bool} {q : Char} {v : Text} {s : List Nat}
    (hq : isMark q = true) (hv : q ∉ v) (hb : '\\' ∈ v)
    (h : readLiteral legacy (quote q v) = some s) : s.length < (units v).length := by
  rw [quote, readLiteral, if_pos hq] at h
  have := (readBody_length v 0 hv h).2.2
  rw [List.drop_zero] at this
  exact this hb

/-- A line end in a text is its first character or stands in the rest. -/
theorem lineEnd_mem_cons {c : Char} {v : Text} : ('\n' ∈ c :: v ∨ '\r' ∈ c :: v) ↔
    (c = '\n' ∨ c = '\r') ∨ ('\n' ∈ v ∨ '\r' ∈ v) := by
  rw [List.mem_cons, List.mem_cons, or_or_or_comm, eq_comm, @eq_comm _ '\r']

/-- A text without a backslash denotes itself between two marks, or nothing. -/
theorem readBody_plain {legacy : Bool} {q : Char} : ∀ {v : Text} {s : List Nat}, q ∉ v → '\\' ∉ v →
    readBody legacy q 0 (v ++ [q]) = some s → ¬('\n' ∈ v ∨ '\r' ∈ v) ∧ s = units v
  | [], s, _, _, h => by
      obtain rfl : [] = s := by simpa [readBody] using h
      exact ⟨by simp, rfl⟩
  | c :: v, s, hq, hb, h => by
      have hc : c ≠ q := fun e => hq (by rw [e]; exact List.mem_cons_self)
      have hcb : c ≠ '\\' := fun e => hb (by rw [e]; exact List.mem_cons_self)
      rw [List.cons_append, readBody, if_neg hc, if_neg hcb] at h
      split at h
      · cases h
      · next hn =>
        obtain ⟨s', hs', rfl⟩ := Option.map_eq_some_iff.mp h
        obtain ⟨hv, rfl⟩ := readBody_plain (fun hv => hq (List.mem_cons_of_mem c hv))
          (fun hv => hb (List.mem_cons_of_mem c hv)) hs'
        exact ⟨fun he => (lineEnd_mem_cons.mp he).elim hn hv, rfl⟩

/-! ### Written literals -/

theorem escapeAt?_backslash (legacy : Bool) (t : Text) :
    escapeAt? legacy ('\\' :: t) = some ([92], 1) := rfl

theorem escapeAt?_mark (legacy : Bool) (q : Quotes) (t : Text) :
    escapeAt? legacy (q.mark :: t) = some (codeUnits q.mark.toNat, 1) := by
  cases q <;> rfl

/-- A value that is written as a literal is read as this value, unless it ends a line. -/
theorem readBody_escaped (legacy : Bool) (q : Quotes) : ∀ (v : Text),
    readBody legacy q.mark 0 (v.flatMap q.escapeChar ++ [q.mark]) =
      if '\n' ∈ v ∨ '\r' ∈ v then none else some (units v)
  | [] => by simp [readBody, units]
  | c :: v => by
      have ih := readBody_escaped legacy q v
      rw [List.flatMap_cons, List.append_assoc]
      simp only [lineEnd_mem_cons]
      by_cases he : c = '\\' ∨ c = q.mark
      · have hn : ¬(c = '\n' ∨ c = '\r') := by
          rcases he with rfl | rfl
          · decide
          · cases q <;> decide
        have hr : escapeAt? legacy (c :: (v.flatMap q.escapeChar ++ [q.mark])) =
            some (codeUnits c.toNat, 1) := by
          rcases he with rfl | rfl
          · exact escapeAt?_backslash legacy _
          · exact escapeAt?_mark legacy q _
        rw [Quotes.escapeChar_of_special he, List.cons_append, List.singleton_append, readBody,
          if_neg q.mark_ne_backslash.symm, if_pos rfl, hr, Option.bind_some, readBody, ih]
        simp only [hn, false_or]
        split <;> rfl
      · obtain ⟨hb, hq⟩ := not_or.mp he
        rw [Quotes.escapeChar_of_plain he, List.singleton_append, readBody, if_neg hq, if_neg hb,
          ih]
        by_cases hn : c = '\n' ∨ c = '\r'
        · rw [if_pos hn, if_pos (Or.inl hn)]
        · simp only [hn, false_or, if_false]
          split <;> rfl

theorem readLiteral_literal (legacy : Bool) (q : Quotes) (v : Text) :
    readLiteral legacy (q.literal v) =
      if '\n' ∈ v ∨ '\r' ∈ v then none else some (units v) := by
  have hq : isMark q.mark = true := by cases q <;> rfl
  rw [Quotes.literal, List.cons_append, readLiteral, if_pos hq, readBody_escaped]

end Literal
end SuiteAudit
