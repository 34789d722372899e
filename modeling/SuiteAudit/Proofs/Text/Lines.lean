import SuiteAudit.Text.Basic

/-! # Lines

No line holds a line feed, and lines without one are the lines of their join (`lines_joinLines`).
Joins and cuts go along with appending (`joinLines_append`, `lines_append_newline`), so that a block
of lines between others stands in the text as it is (`joinLines_middle`). -/

namespace SuiteAudit.Text

theorem joinLines_cons_cons (a b : Text) (rest : List Text) :
    joinLines (a :: b :: rest) = a ++ '\n' :: joinLines (b :: rest) := by
  rw [joinLines, join_cons_cons, List.append_assoc]
  rfl

theorem joinLines_singleton (a : Text) : joinLines [a] = a := join_singleton _ a

theorem joinLines_append : ∀ {a b : List Text}, a ≠ [] → b ≠ [] →
    joinLines (a ++ b) = joinLines a ++ '\n' :: joinLines b
  | [], _, ha, _ => absurd rfl ha
  | [x], b, _, hb => by
      cases b with
      | nil => exact absurd rfl hb
      | cons y b => rw [List.singleton_append, joinLines_cons_cons, joinLines_singleton]
  | x :: y :: a, b, _, hb => by
      have ih := joinLines_append (a := y :: a) (List.cons_ne_nil y a) hb
      rw [List.cons_append, List.cons_append, joinLines_cons_cons, joinLines_cons_cons,
        ← List.cons_append, ih, List.append_assoc, List.cons_append]

/-- A block of lines with others before and behind it stands between two line feeds. -/
theorem joinLines_middle {a b c : List Text} (ha : a ≠ []) (hb : b ≠ []) (hc : c ≠ []) :
    joinLines (a ++ b ++ c) = joinLines a ++ '\n' :: (joinLines b ++ '\n' :: joinLines c) := by
  rw [joinLines_append (by simp [ha]) hc, joinLines_append ha hb, List.append_assoc,
    List.cons_append]

/-- A line that is cut within, with the lines around it. -/
theorem joinLines_cut (a : List Text) (x y : Text) (c : Char) (b : List Text) :
    joinLines (a ++ (x ++ c :: y) :: b) = joinLines (a ++ [x]) ++ c :: joinLines (y :: b) := by
  have hb : ∀ z : Text, joinLines ((z ++ c :: y) :: b) = z ++ c :: joinLines (y :: b) := by
    intro z
    cases b with
    | nil => simp [joinLines_singleton]
    | cons l b => simp [joinLines_cons_cons]
  cases a with
  | nil => rw [List.nil_append, List.nil_append, joinLines_singleton, hb]
  | cons l a =>
      rw [joinLines_append (List.cons_ne_nil l a) (List.cons_ne_nil _ b), hb,
        joinLines_append (List.cons_ne_nil l a) (List.cons_ne_nil x []), joinLines_singleton,
        List.append_assoc, List.cons_append]

theorem joinLines_prefix_append (a b : List Text) : joinLines a <+: joinLines (a ++ b) := by
  cases a with
  | nil => exact List.nil_prefix
  | cons l a =>
      cases b with
      | nil => simp
      | cons x b =>
          rw [joinLines_append (List.cons_ne_nil l a) (List.cons_ne_nil x b)]
          exact List.prefix_append _ _

theorem joinLines_suffix_append (a b : List Text) : joinLines b <:+ joinLines (a ++ b) := by
  cases b with
  | nil => exact List.nil_suffix
  | cons x b =>
      cases a with
      | nil => exact List.suffix_refl _
      | cons l a =>
          rw [joinLines_append (List.cons_ne_nil l a) (List.cons_ne_nil x b)]
          exact (List.suffix_cons _ _).trans (List.suffix_append _ _)

/-- The characters of a join are those of its lines and line feeds. -/
theorem not_mem_joinLines {c : Char} (hc : c ≠ '\n') : ∀ {ls : List Text}, (∀ l ∈ ls, c ∉ l) →
    c ∉ joinLines ls
  | [], _ => by simp [joinLines, join]
  | [a], h => by
      rw [joinLines_singleton]
      exact h a List.mem_cons_self
  | a :: b :: ls, h => by
      rw [joinLines_cons_cons, List.mem_append, List.mem_cons, not_or, not_or]
      exact ⟨h a List.mem_cons_self, hc,
        not_mem_joinLines hc fun l hl => h l (List.mem_cons_of_mem a hl)⟩

/-- Lines between others may be cut or put together in another way. -/
theorem joinLines_congr (a : List Text) {b b' : List Text} (hb : b ≠ []) (hb' : b' ≠ [])
    (h : joinLines b = joinLines b') (c : List Text) :
    joinLines (a ++ b ++ c) = joinLines (a ++ b' ++ c) := by
  have hc : joinLines (b ++ c) = joinLines (b' ++ c) := by
    cases c with
    | nil => rwa [List.append_nil, List.append_nil]
    | cons z c =>
        rw [joinLines_append hb (List.cons_ne_nil z c), joinLines_append hb' (List.cons_ne_nil z c),
          h]
  cases a with
  | nil => exact hc
  | cons x a =>
      rw [List.append_assoc, List.append_assoc,
        joinLines_append (List.cons_ne_nil x a) (List.append_ne_nil_of_left_ne_nil hb c),
        joinLines_append (List.cons_ne_nil x a) (List.append_ne_nil_of_left_ne_nil hb' c), hc]

/-- A line with others before and behind it stands between line feeds. -/
theorem line_infix_joinLines {a c : List Text} (ha : a ≠ []) (hc : c ≠ []) (line : Text) :
    '\n' :: (line ++ ['\n']) <:+: joinLines (a ++ [line] ++ c) := by
  rw [joinLines_middle ha (List.cons_ne_nil line []) hc, joinLines_singleton]
  exact ⟨joinLines a, joinLines c, by simp⟩

/-! ### Cuts -/

theorem splitOn_cons_self (sep : Char) (t : Text) : splitOn sep (sep :: t) = [] :: splitOn sep t := by
  rw [splitOn]
  split
  · next h => exact absurd h (splitOn_ne_nil _ _)
  · next h => simp [h]

theorem splitOn_cons {sep c : Char} (hc : c ≠ sep) (t : Text) :
    splitOn sep (c :: t) = (splitOn sep t).modifyHead (c :: ·) := by
  rw [splitOn]
  split
  · next h => exact absurd h (splitOn_ne_nil _ _)
  · next h => simp [h, hc]

theorem splitOn_append (sep : Char) : ∀ (a b : Text),
    splitOn sep (a ++ sep :: b) = splitOn sep a ++ splitOn sep b
  | [], b => by
      rw [List.nil_append, splitOn_cons_self]
      rfl
  | c :: a, b => by
      by_cases hc : c = sep
      · rw [hc, List.cons_append, splitOn_cons_self, splitOn_cons_self, splitOn_append sep a b]
        rfl
      · rw [List.cons_append, splitOn_cons hc, splitOn_cons hc, splitOn_append sep a b]
        cases h : splitOn sep a with
        | nil => exact absurd h (splitOn_ne_nil sep a)
        | cons x xs => rfl

/-- The separator stands in no piece. -/
theorem not_mem_of_mem_splitOn {sep : Char} : ∀ (t : Text) {l : Text}, l ∈ splitOn sep t → sep ∉ l
  | [], l, h => by
      rw [List.mem_singleton.mp h]
      exact List.not_mem_nil
  | c :: t, l, h => by
      have ih : ∀ {l : Text}, l ∈ splitOn sep t → sep ∉ l := fun h => not_mem_of_mem_splitOn t h
      by_cases hc : c = sep
      · rw [hc, splitOn_cons_self] at h
        rcases List.mem_cons.mp h with rfl | h
        · exact List.not_mem_nil
        · exact ih h
      · rw [splitOn_cons hc] at h
        cases e : splitOn sep t with
        | nil => exact absurd e (splitOn_ne_nil sep t)
        | cons x xs =>
            rw [e] at h ih
            rcases List.mem_cons.mp h with rfl | h
            · intro hn
              rcases List.mem_cons.mp hn with rfl | hn
              · exact hc rfl
              · exact ih List.mem_cons_self hn
            · exact ih (List.mem_cons_of_mem x h)

theorem splitOn_of_not_mem {sep : Char} : ∀ {t : Text}, sep ∉ t → splitOn sep t = [t]
  | [], _ => rfl
  | c :: t, h => by
      obtain ⟨hc, ht⟩ := not_or.mp fun e => h (List.mem_cons.mpr e)
      rw [splitOn_cons (Ne.symm hc), splitOn_of_not_mem ht]
      rfl

theorem lines_newline_cons (t : Text) : lines ('\n' :: t) = [] :: lines t := splitOn_cons_self '\n' t

theorem lines_cons {c : Char} (hc : c ≠ '\n') (t : Text) :
    lines (c :: t) = (lines t).modifyHead (c :: ·) := splitOn_cons hc t

theorem lines_ne_nil (t : Text) : lines t ≠ [] := splitOn_ne_nil _ t

theorem lines_append_newline (a b : Text) : lines (a ++ '\n' :: b) = lines a ++ lines b :=
  splitOn_append '\n' a b

theorem newline_not_mem_of_mem_lines (t : Text) {l : Text} (h : l ∈ lines t) : '\n' ∉ l :=
  not_mem_of_mem_splitOn t h

theorem lines_of_newline_not_mem {t : Text} (h : '\n' ∉ t) : lines t = [t] := splitOn_of_not_mem h

/-- What stands before a text on its first line. -/
theorem lines_append_of_not_mem {t l : Text} {ls : List Text} : ∀ {s : Text}, '\n' ∉ s →
    lines t = l :: ls → lines (s ++ t) = (s ++ l) :: ls
  | [], _, h => h
  | c :: s, hs, h => by
      obtain ⟨hc, hs⟩ := not_or.mp fun e => hs (List.mem_cons.mpr e)
      rw [List.cons_append, lines_cons (Ne.symm hc), lines_append_of_not_mem hs h]
      rfl

/-- A text is one line, or a line with a text below it. -/
@[elab_as_elim]
theorem lines_induction {motive : Text → Prop} (last : ∀ x, '\n' ∉ x → motive x)
    (more : ∀ x u, '\n' ∉ x → motive u → motive (x ++ '\n' :: u)) (t : Text) : motive t := by
  by_cases hmem : '\n' ∈ t
  · obtain ⟨x, u, e, hx⟩ := List.eq_append_cons_of_mem hmem
    have hlength : u.length < t.length := by
      rw [e, List.length_append, List.length_cons]
      omega
    exact e ▸ more x u hx (lines_induction last more u)
  · exact last t hmem
  termination_by t.length

/-- There is one line more than there are line feeds. -/
theorem length_lines : ∀ (t : Text), (lines t).length = t.count '\n' + 1
  | [] => rfl
  | c :: t => by
      by_cases hc : c = '\n'
      · rw [hc, lines_newline_cons, List.length_cons, length_lines t, List.count_cons_self]
      · rw [lines_cons hc, List.length_modifyHead, length_lines t, List.count_cons_of_ne hc]

/-- A join has at least as many lines as were joined. -/
theorem length_le_length_lines_joinLines : ∀ (ls : List Text),
    ls.length ≤ (lines (joinLines ls)).length
  | [] => Nat.zero_le _
  | [a] => by
      rw [length_lines]
      exact Nat.le_add_left _ _
  | a :: b :: ls => by
      have ih := length_le_length_lines_joinLines (b :: ls)
      have ha := length_lines a
      rw [joinLines_cons_cons, lines_append_newline, List.length_append]
      simp only [List.length_cons] at ih ⊢
      omega

/-- Lines are found again in their join. -/
theorem lines_joinLines : ∀ {ls : List Text}, ls ≠ [] → (∀ l ∈ ls, '\n' ∉ l) →
    lines (joinLines ls) = ls
  | [], h, _ => absurd rfl h
  | [a], _, h => by
      rw [joinLines_singleton, lines_of_newline_not_mem (h a List.mem_cons_self)]
  | a :: b :: rest, _, h => by
      have ih : lines (joinLines (b :: rest)) = b :: rest :=
        lines_joinLines (List.cons_ne_nil b rest) fun l hl => h l (List.mem_cons_of_mem a hl)
      rw [joinLines_cons_cons, lines_append_newline, ih,
        lines_of_newline_not_mem (h a List.mem_cons_self)]
      rfl

theorem infix_of_mem_lines {t l : Text} (h : l ∈ lines t) : l <:+: t := by
  obtain ⟨a, b, e⟩ := List.append_of_mem h
  have hl : l <+: joinLines (l :: b) := by
    have := joinLines_prefix_append [l] b
    rwa [joinLines_singleton] at this
  have ht := joinLines_suffix_append a (l :: b)
  rw [← e, joinLines_lines] at ht
  exact hl.isInfix.trans ht.isInfix

/-- The line on which one text ends and another one begins. -/
theorem exists_lines_cut (a u : Text) : ∃ before x y behind, lines a = before ++ [x] ∧
    lines u = y :: behind ∧ lines (a ++ u) = before ++ (x ++ y) :: behind := by
  obtain ⟨y, behind, hu⟩ := List.exists_cons_of_ne_nil (lines_ne_nil u)
  obtain ⟨before, x, ha⟩ := (List.eq_nil_or_concat (lines a)).resolve_left (lines_ne_nil a)
  rw [List.concat_eq_append] at ha
  have hx : '\n' ∉ x := newline_not_mem_of_mem_lines a (by rw [ha]; simp)
  have hline := lines_append_of_not_mem hx hu
  have hjoin := joinLines_lines a
  rw [ha] at hjoin
  refine ⟨before, x, y, behind, ha, hu, ?_⟩
  by_cases hb : before = []
  · rw [hb, List.nil_append, joinLines_singleton] at hjoin
    rw [← hjoin, hline, hb]
    rfl
  · rw [joinLines_append hb (List.cons_ne_nil x []), joinLines_singleton] at hjoin
    have hlines : lines (joinLines before) = before :=
      lines_joinLines hb fun l hl => newline_not_mem_of_mem_lines a (by rw [ha]; simp [hl])
    rw [← hjoin, List.append_assoc, List.cons_append, lines_append_newline, hlines, hline]

/-- The lines before that line are as many as there are line feeds. -/
theorem exists_lines_append (a u : Text) : ∃ before x y behind,
    lines (a ++ u) = before ++ (x ++ y) :: behind ∧ lines u = y :: behind ∧
      before.length = a.count '\n' ∧ x <:+ a := by
  obtain ⟨before, x, y, behind, ha, hu, hlines⟩ := exists_lines_cut a u
  refine ⟨before, x, y, behind, hlines, hu, ?_, ?_⟩
  · have h := length_lines a
    rw [ha, List.length_append, List.length_singleton] at h
    omega
  · have h := joinLines_suffix_append before [x]
    rwa [← ha, joinLines_lines, joinLines_singleton] at h

end SuiteAudit.Text
