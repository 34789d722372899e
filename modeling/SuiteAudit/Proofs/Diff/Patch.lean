import Mathlib.Data.List.Basic
import SuiteAudit.Text.WideLines

/-! # Patches

A unified diff read by itself, with nothing taken from the way it is written.  A patch is cut at line
feeds: two lines name the files, then come the hunks, and the head of each says where it lies in both
texts and how many lines of them it shows.  Every line counts as ended by a line feed unless the next
line says that it has none.

Applying a patch is strict: each hunk lies at the place that its head gives, and the lines that it
shows of the old text are the lines there (`applyLines_eq_some_iff`). -/

namespace SuiteAudit.Patch

/-- What a line of a hunk is: in both texts, or only in the old or the new one. -/
inductive Mark where
  | keep
  | remove
  | add
  deriving DecidableEq, Repr

namespace Mark

def char : Mark → Char
  | keep => ' '
  | remove => '-'
  | add => '+'

def ofChar? : Char → Option Mark
  | ' ' => some keep
  | '-' => some remove
  | '+' => some add
  | _ => none

def inOld : Mark → Bool
  | add => false
  | _ => true

def inNew : Mark → Bool
  | remove => false
  | _ => true

theorem ofChar?_char (m : Mark) : ofChar? m.char = some m := by cases m <;> rfl

end Mark

/-- Lines of a text by the number of lines before them, and how many they are. -/
structure Range where
  start : Nat
  size : Nat
  deriving DecidableEq, Repr

/-- What the head of a hunk says. -/
structure Head where
  old : Range
  new : Range
  deriving DecidableEq, Repr

structure Hunk where
  head : Head
  lines : List (Mark × Text)
  deriving DecidableEq, Repr

/-! ### Reading -/

/-- The numeral at the start of a text, and what stands behind it. -/
def readNumber (t : Text) : Option (Nat × Text) :=
  if t.takeWhile Char.isDigit = [] then none
  else some (Nat.ofDigitChars 10 (t.takeWhile Char.isDigit) 0, t.dropWhile Char.isDigit)

/-- The range that a number and a size stand for: no lines are named by the line before them. -/
def Range.ofNumbers (n size : Nat) : Range := ⟨if size = 0 then n else n - 1, size⟩

/-- A range, whose size is written unless it is one. -/
def readRange (t : Text) : Option (Range × Text) :=
  (readNumber t).bind fun p =>
    match p.2 with
    | ',' :: rest => (readNumber rest).map fun q => (.ofNumbers p.1 q.1, q.2)
    | rest => some (.ofNumbers p.1 1, rest)

def readHead (t : Text) : Option Head :=
  (t.dropPrefix? "@@ -".toList).bind fun t => (readRange t).bind fun old =>
    (old.2.dropPrefix? " +".toList).bind fun t => (readRange t).bind fun new =>
      (new.2.dropPrefix? " @@".toList).map fun _ => ⟨old.1, new.1⟩

/-- A line of a hunk. -/
def readLine : Text → Option (Mark × Text)
  | [] => none
  | c :: l => (Mark.ofChar? c).map fun m => (m, l)

/-- The rest of a hunk, which lacks `o` lines of the old and `n` lines of the new text, and the hunks
behind it. -/
def readFrom : Nat → Nat → List Text → Option (List (Mark × Text) × List Hunk)
  | o, n, [] => if o = 0 ∧ n = 0 then some ([], []) else none
  | o, n, l :: ls =>
    if o = 0 ∧ n = 0 then
      (readHead l).bind fun h =>
        (readFrom h.old.size h.new.size ls).map fun p => ([], ⟨h, p.1⟩ :: p.2)
    else
      (readLine l).bind fun q =>
        if q.1.inOld.toNat ≤ o ∧ q.1.inNew.toNat ≤ n then
          (readFrom (o - q.1.inOld.toNat) (n - q.1.inNew.toNat) ls).map fun p => (q :: p.1, p.2)
        else none

/-- What stands before a remark that the line before has no line feed. -/
def noEnd : Text := "\\ "

/-- Lines with their ends: each is ended by a line feed, unless a remark follows that it is not. -/
def closed : List Text → List Text
  | [] => []
  | [l] => [l ++ ['\n']]
  | l :: m :: ls =>
    if noEnd.isPrefixOf m then l :: closed ls else (l ++ ['\n']) :: closed (m :: ls)

/-- The hunks of a patch. -/
def read? (patch : Text) : Option (List Hunk) :=
  match closed (Text.lines patch) with
  | old :: new :: ls =>
    if ("--- " : Text).isPrefixOf old ∧ ("+++ " : Text).isPrefixOf new then
      (readFrom 0 0 ls).map (·.2)
    else none
  | _ => none

/-! ### Applying -/

/-- The lines of a text, each with the line feed that ends it; only the last may have none. -/
def feedLines : Text → List Text
  | [] => []
  | c :: rest => if c = '\n' then ['\n'] :: feedLines rest else Text.consLine c (feedLines rest)

theorem feedLines_flatten : ∀ (t : Text), (feedLines t).flatten = t
  | [] => rfl
  | c :: t => by
      rw [feedLines]
      split
      · next hc => rw [List.flatten_cons, feedLines_flatten t, hc, List.singleton_append]
      · rw [Text.consLine_flatten, feedLines_flatten t]

/-- Goes over the lines of a hunk and the lines of the old text: the lines of the new text, and what
is left of the old one. -/
def applyLines : List (Mark × Text) → List Text → Option (List Text × List Text)
  | [], ls => some ([], ls)
  | (.keep, l) :: ms, l' :: ls =>
    if l = l' then (applyLines ms ls).map fun p => (l :: p.1, p.2) else none
  | (.remove, l) :: ms, l' :: ls => if l = l' then applyLines ms ls else none
  | (.add, l) :: ms, ls => (applyLines ms ls).map fun p => (l :: p.1, p.2)
  | _ :: _, [] => none

/-- Applies hunks to the lines that follow the first `i` of the old text, when the new text has `j`
lines so far. -/
def applyHunks : Nat → Nat → List Hunk → List Text → Option (List Text)
  | _, _, [], ls => some ls
  | i, j, h :: hs, ls =>
    if i ≤ h.head.old.start ∧ h.head.new.start = j + (h.head.old.start - i) ∧
        h.head.old.start - i ≤ ls.length then
      (applyLines h.lines (ls.drop (h.head.old.start - i))).bind fun p =>
        (applyHunks (h.head.old.start + h.head.old.size) (h.head.new.start + h.head.new.size) hs
          p.2).map fun out => ls.take (h.head.old.start - i) ++ p.1 ++ out
    else none

/-- The text that a patch makes of a text, if it is a patch and applies to it. -/
def applied? (patch text : Text) : Option Text :=
  (read? patch).bind fun hunks => (applyHunks 0 0 hunks (feedLines text)).map List.flatten

/-! ### What is read -/

/-- The lines that a hunk shows of the old text. -/
def oldLines (ms : List (Mark × Text)) : List Text := (ms.filter (·.1.inOld)).map (·.2)

/-- The lines that a hunk shows of the new text. -/
def newLines (ms : List (Mark × Text)) : List Text := (ms.filter (·.1.inNew)).map (·.2)

/-- A line of a hunk with its mark. -/
def written (p : Mark × Text) : Text := p.1.char :: p.2

/-- Lines that are as many as the hunk still lacks are read as they are written. -/
theorem readFrom_written (o n : Nat) (rest : List Text) : ∀ (ms : List (Mark × Text)),
    readFrom ((oldLines ms).length + o) ((newLines ms).length + n) (ms.map written ++ rest) =
      (readFrom o n rest).map fun p => (ms ++ p.1, p.2)
  | [] => by simp [oldLines, newLines]
  | (m, l) :: ms => by
      have ih := readFrom_written o n rest ms
      have hline : readLine (written (m, l)) = some (m, l) := by
        rw [written, readLine, Mark.ofChar?_char, Option.map_some]
      have hold : (oldLines ((m, l) :: ms)).length = m.inOld.toNat + (oldLines ms).length := by
        cases m <;> simp [oldLines, Mark.inOld, Nat.add_comm]
      have hnew : (newLines ((m, l) :: ms)).length = m.inNew.toNat + (newLines ms).length := by
        cases m <;> simp [newLines, Mark.inNew, Nat.add_comm]
      have hsome : 0 < m.inOld.toNat + m.inNew.toNat := by cases m <;> decide
      rw [List.map_cons, List.cons_append, readFrom, if_neg (by omega), hline, Option.bind_some,
        if_pos ⟨by simp only; omega, by simp only; omega⟩, hold, hnew, Nat.add_assoc,
        Nat.add_assoc, Nat.add_sub_cancel_left, Nat.add_sub_cancel_left, ih, Option.map_map]
      rfl

/-- Without a remark, every line is ended by a line feed. -/
theorem closed_eq_map : ∀ {ls : List Text}, (∀ l ∈ ls, ¬ noEnd <+: l) →
    closed ls = ls.map (· ++ ['\n'])
  | [], _ => rfl
  | [_], _ => rfl
  | l :: m :: ls, h => by
      have hm : ¬ noEnd <+: m := h m (List.mem_cons_of_mem l List.mem_cons_self)
      rw [closed, if_neg (by rwa [List.isPrefixOf_iff_prefix]),
        closed_eq_map fun x hx => h x (List.mem_cons_of_mem l hx)]
      rfl

/-- A numeral is read up to the first character that is not a digit. -/
theorem readNumber_ofNat (n : Nat) {t : Text} (ht : ∀ c ∈ t.head?, c.isDigit = false) :
    readNumber (Text.ofNat n ++ t) = some (n, t) := by
  have hdigits : ∀ c ∈ Text.ofNat n, c.isDigit = true := fun c hc =>
    Nat.isDigit_of_mem_toDigits (by decide) (by decide) hc
  have hstop : t.takeWhile Char.isDigit = [] ∧ t.dropWhile Char.isDigit = t := by
    cases t with
    | nil => exact ⟨rfl, rfl⟩
    | cons c t =>
        have hc : ¬ c.isDigit = true := by rw [ht c rfl]; decide
        exact ⟨List.takeWhile_cons_of_neg hc, List.dropWhile_cons_of_neg hc⟩
  have hne : Text.ofNat n ≠ [] := Nat.toDigits_ne_nil
  rw [readNumber, List.takeWhile_append_of_pos hdigits, List.dropWhile_append_of_pos hdigits,
    hstop.1, hstop.2, List.append_nil, if_neg hne, Text.ofNat,
    Nat.ofDigitChars_toDigits (by decide) (by decide)]

/-! ### What is applied -/

/-- The lines of a hunk apply to the lines that they show of the old text, and to no others. -/
theorem applyLines_eq_some_iff : ∀ {ms : List (Mark × Text)} {ls out rest : List Text},
    applyLines ms ls = some (out, rest) ↔ ls = oldLines ms ++ rest ∧ out = newLines ms
  | [], ls, out, rest => by simp [applyLines, oldLines, newLines, eq_comm, and_comm]
  | (.keep, l) :: ms, [], out, rest => by simp [applyLines, oldLines, Mark.inOld]
  | (.remove, l) :: ms, [], out, rest => by simp [applyLines, oldLines, Mark.inOld]
  | (.keep, l) :: ms, l' :: ls, out, rest => by
      have hold : oldLines ((.keep, l) :: ms) = l :: oldLines ms := rfl
      have hnew : newLines ((.keep, l) :: ms) = l :: newLines ms := rfl
      rw [applyLines, hold, hnew, List.cons_append, List.cons.injEq]
      by_cases e : l = l'
      · rw [if_pos e, Option.map_eq_some_iff]
        constructor
        · rintro ⟨⟨out', rest'⟩, h, ⟨⟩⟩
          obtain ⟨hls, hout⟩ := applyLines_eq_some_iff.mp h
          exact ⟨⟨e.symm, hls⟩, congrArg (l :: ·) hout⟩
        · rintro ⟨⟨-, hls⟩, rfl⟩
          exact ⟨(newLines ms, rest), applyLines_eq_some_iff.mpr ⟨hls, rfl⟩, rfl⟩
      · rw [if_neg e]
        exact ⟨nofun, fun h => absurd h.1.1.symm e⟩
  | (.remove, l) :: ms, l' :: ls, out, rest => by
      have hold : oldLines ((.remove, l) :: ms) = l :: oldLines ms := rfl
      have hnew : newLines ((.remove, l) :: ms) = newLines ms := rfl
      rw [applyLines, hold, hnew, List.cons_append, List.cons.injEq]
      by_cases e : l = l'
      · rw [if_pos e, applyLines_eq_some_iff, and_iff_right e.symm]
      · rw [if_neg e]
        exact ⟨nofun, fun h => absurd h.1.1.symm e⟩
  | (.add, l) :: ms, ls, out, rest => by
      have hold : oldLines ((.add, l) :: ms) = oldLines ms := rfl
      have hnew : newLines ((.add, l) :: ms) = l :: newLines ms := rfl
      rw [applyLines, hold, hnew, Option.map_eq_some_iff]
      constructor
      · rintro ⟨⟨out', rest'⟩, h, ⟨⟩⟩
        obtain ⟨hls, hout⟩ := applyLines_eq_some_iff.mp h
        exact ⟨hls, congrArg (l :: ·) hout⟩
      · rintro ⟨hls, rfl⟩
        exact ⟨(newLines ms, rest), applyLines_eq_some_iff.mpr ⟨hls, rfl⟩, rfl⟩

end SuiteAudit.Patch
