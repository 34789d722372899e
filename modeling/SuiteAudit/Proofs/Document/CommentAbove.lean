import SuiteAudit.Proofs.Document.CommentOpening

/-! # The comment above a line

Above a line the reader takes all line comments (`IsSlashStretch`), or, where a block comment ends
there, the lines up to one that begins with an opening (`IsBlockStretch`).  Where these lines are one
block comment this gives its text.  They need not be: an opening behind code is not looked for, and
then the code is read, up to the first line (`commentAbove?_reads`, `code_is_read`). -/

namespace SuiteAudit
namespace Document

/-! ### The lines that are read -/

/-- All line comments directly above a line: `stretch` behind `pre`. -/
structure IsSlashStretch (pre stretch : List Text) : Prop where
  slashes : ∀ line ∈ stretch, isSlashComment line = true
  maximal : pre.getLast?.any isSlashComment = false

theorem IsSlashStretch.last {pre stretch : List Text} (h : IsSlashStretch pre stretch)
    (hne : stretch ≠ []) : (pre ++ stretch).getLast?.any isSlashComment = true := by
  obtain ⟨before, last, rfl⟩ := (List.eq_nil_or_concat stretch).resolve_left hne
  have hlast := h.slashes last (by simp)
  rw [List.concat_eq_append, ← List.append_assoc, List.getLast?_concat]
  exact hlast

/-- The lines that are read where a block comment ends above a line: up to the nearest one that
begins with an opening, or all of them. -/
structure IsBlockStretch (pre stretch : List Text) : Prop where
  noSlash : stretch.getLast?.any isSlashComment = false
  closes : stretch.getLast?.any closesBlock = true
  opens : pre = [] ∨ stretch.head?.any opensBlock = true
  nearest : ∀ line ∈ stretch.tail, opensBlock line = false

/-- The walk upwards stops at the nearest line that begins with an opening, or at the top. -/
theorem blockUp_cases (above : List Text) :
    (∃ inner first rest, above = inner ++ first :: rest ∧ blockUp above = inner ++ [first] ∧
      opensBlock first = true ∧ ∀ line ∈ inner, opensBlock line = false) ∨
    (blockUp above = above ∧ ∀ line ∈ above, opensBlock line = false) := by
  induction above with
  | nil => exact .inr ⟨rfl, by simp⟩
  | cons line above ih =>
      cases hline : opensBlock line with
      | true => exact .inl ⟨[], line, above, rfl, if_pos hline, hline, by simp⟩
      | false =>
          have hup : blockUp (line :: above) = line :: blockUp above :=
            if_neg (Bool.eq_false_iff.mp hline)
          rcases ih with ⟨inner, first, rest, rfl, hblock, hfirst, hinner⟩ | ⟨hblock, habove⟩
          · refine .inl ⟨line :: inner, first, rest, rfl, by rw [hup, hblock]; rfl, hfirst, ?_⟩
            exact List.forall_mem_cons.mpr ⟨hline, hinner⟩
          · exact .inr ⟨by rw [hup, hblock], List.forall_mem_cons.mpr ⟨hline, habove⟩⟩

theorem exists_blockStretch {above : List Text} {last : Text} (hslash : isSlashComment last = false)
    (hcloses : closesBlock last = true) : ∃ pre stretch,
      above ++ [last] = pre ++ stretch ∧ stretch ≠ [] ∧ IsBlockStretch pre stretch ∧
        (blockUp (above ++ [last]).reverse).reverse = stretch := by
  rcases blockUp_cases (above ++ [last]).reverse with
    ⟨inner, first, rest, habove, hblock, hfirst, hinner⟩ | ⟨hblock, hall⟩
  · have hsplit : above ++ [last] = rest.reverse ++ (first :: inner.reverse) := by
      have := congrArg List.reverse habove
      simpa using this
    have hlast : (first :: inner.reverse).getLast? = some last := by
      have := congrArg List.getLast? hsplit
      rw [List.getLast?_concat, List.getLast?_append, List.getLast?_cons] at this
      rw [List.getLast?_cons]
      exact this.symm
    refine ⟨rest.reverse, first :: inner.reverse, hsplit, List.cons_ne_nil _ _, ⟨?_, ?_, ?_, ?_⟩, ?_⟩
    · rw [hlast]
      exact hslash
    · rw [hlast]
      exact hcloses
    · exact .inr hfirst
    · exact fun line hline => hinner line (List.mem_reverse.mp hline)
    · rw [hblock, List.reverse_append]
      rfl
  · refine ⟨[], above ++ [last], rfl, by simp, ⟨?_, ?_, .inl rfl, fun line hline => ?_⟩, ?_⟩
    · rw [List.getLast?_concat]
      exact hslash
    · rw [List.getLast?_concat]
      exact hcloses
    · exact hall line (List.mem_reverse.mpr (List.mem_of_mem_tail hline))
    · rw [hblock, List.reverse_reverse]

theorem exists_slashStretch (above : List Text) : ∃ pre,
    above = pre ++ (above.reverse.takeWhile isSlashComment).reverse ∧
      IsSlashStretch pre (above.reverse.takeWhile isSlashComment).reverse := by
  refine ⟨(above.reverse.dropWhile isSlashComment).reverse, ?_, fun line hline => ?_, ?_⟩
  · rw [← List.reverse_append, List.takeWhile_append_dropWhile, List.reverse_reverse]
  · exact List.all_eq_true.mp List.all_takeWhile line (List.mem_reverse.mp hline)
  · rw [List.getLast?_reverse]
    cases h : above.reverse.dropWhile isSlashComment with
    | nil => rfl
    | cons line rest =>
        have := List.head?_dropWhile_not isSlashComment above.reverse
        rw [h] at this
        simpa using this

theorem nonEmpty?_eq_some {t text : Text} (h : nonEmpty? t = some text) : text = t ∧ t ≠ [] := by
  rw [nonEmpty?] at h
  split at h
  · cases h
  · next hne => exact ⟨(Option.some.inj h).symm, by simpa using hne⟩

/-- A text above a line is that of the line comments there, or that of the lines that are read where
a block comment ends. -/
theorem exists_stretch {above : List Text} {text : Text}
    (h : commentUp? above.reverse = some text) : text ≠ [] ∧ ∃ pre stretch,
      above = pre ++ stretch ∧ stretch ≠ [] ∧
        (IsSlashStretch pre stretch ∧ text = joinWords (stretch.map slashText) ∨
          IsBlockStretch pre stretch ∧ text = joinWords (stretch.map blockText)) := by
  unfold commentUp? at h
  split at h
  · next hslashes =>
    obtain rfl | ⟨above, last, rfl⟩ := List.eq_nil_or_concat above
    · cases h
    · rw [List.concat_eq_append, List.reverse_append] at h hslashes
      have hslash : isSlashComment last = false := by
        cases hlast : isSlashComment last with
        | false => rfl
        | true => simp [hlast] at hslashes
      have h : (if closesBlock last = true then _ else none) = some text := h
      split at h
      · next hcloses =>
        obtain ⟨rfl, hne⟩ := nonEmpty?_eq_some h
        obtain ⟨pre, stretch, hsplit, hstretch, hblock, hup⟩ := exists_blockStretch hslash hcloses
        rw [List.concat_eq_append]
        refine ⟨hne, pre, stretch, hsplit, hstretch, .inr ⟨hblock, ?_⟩⟩
        rw [← hup, List.reverse_append]
      · cases h
  · next hslashes =>
    obtain ⟨rfl, hne⟩ := nonEmpty?_eq_some h
    obtain ⟨pre, hsplit, hstretch⟩ := exists_slashStretch above
    refine ⟨hne, pre, _, hsplit, ?_, .inl ⟨hstretch, rfl⟩⟩
    exact fun hnil => hslashes (List.reverse_eq_nil_iff.mp hnil)

/-- What is read above a line comes from lines directly above it: from all line comments there, or,
where a closing ends the last one, from those up to the nearest opening at the beginning of a line.
If these are one block comment the text is that of the comment, and unless delimiters share a character
it is the text of a comment that ends there only then. -/
theorem commentAbove?_reads {lines : List Text} {n : Nat} {text : Text}
    (hlines : ∀ line ∈ lines, '\n' ∉ line) (hn : n ≤ lines.length)
    (h : commentAbove? lines n = some text) : ∃ pre stretch behind,
      lines = pre ++ (stretch ++ behind) ∧ pre.length + stretch.length + 1 = n ∧ stretch ≠ [] ∧
        (IsSlashStretch pre stretch ∧ text = joinWords (stretch.map slashText) ∨
          IsBlockStretch pre stretch ∧ text = joinWords (stretch.map blockText) ∧
            (∀ body, IsBlockComment stretch body → text = bodyText body) ∧
            (SeparateDelimiters (Text.joinLines stretch) →
              ((∃ body, EndsWithComment (pre ++ stretch) body ∧ text = bodyText body) ↔
                ∃ body, IsBlockComment stretch body))) := by
  obtain ⟨hfilled, pre, stretch, habove, hne, hread⟩ := exists_stretch h
  have hsplit : lines = pre ++ (stretch ++ lines.drop (n - 1)) := by
    rw [← List.append_assoc, ← habove, List.take_append_drop]
  have hlength : pre.length + stretch.length = n - 1 := by
    have := congrArg List.length habove
    rw [List.length_take, List.length_append] at this
    omega
  have hpos : 0 < stretch.length := List.length_pos_iff.mpr hne
  refine ⟨pre, stretch, lines.drop (n - 1), hsplit, by omega, hne, ?_⟩
  rcases hread with hread | ⟨hblock, htext⟩
  · exact .inl hread
  · have hstretch : ∀ line ∈ stretch, '\n' ∉ line := fun line hm =>
      hlines line (by rw [hsplit]; simp [hm])
    have hcomment : ∀ body, IsBlockComment stretch body → text = bodyText body := fun body hbody => by
      rw [htext, hbody.map_blockText hne hstretch hblock.nearest, bodyText]
    refine .inr ⟨hblock, htext, hcomment, fun hshared => ⟨?_, ?_⟩⟩
    · rintro ⟨body, hends, hbody⟩
      exact hends.isBlockComment hne hstretch hblock.opens hblock.nearest hshared
        (hbody ▸ hfilled) (htext.symm.trans hbody)
    · rintro ⟨body, hbody⟩
      exact ⟨body, hbody.endsWithComment hne pre, hcomment body hbody⟩

/-- A comment on lines of its own. -/
def checkedCart : List Text := ["/**", " * Checks the cart", " */", "test('cart');"]

theorem checkedCart_comment : commentAbove? checkedCart 4 = some "Checks the cart" ∧
    ∃ pre stretch behind, checkedCart = pre ++ (stretch ++ behind) ∧
      pre.length + stretch.length + 1 = 4 ∧ IsBlockStretch pre stretch ∧
        "Checks the cart" = joinWords (stretch.map blockText) := by
  have hread : commentAbove? checkedCart 4 = some "Checks the cart" := by decide +kernel
  obtain ⟨pre, stretch, behind, hsplit, hlength, hne, hslash | hblock⟩ :=
    commentAbove?_reads (by decide +kernel) (by decide) hread
  · exfalso
    have habove : checkedCart.take 3 = pre ++ stretch := by
      rw [hsplit, ← List.append_assoc, List.take_left' (by simp; omega)]
    have hlast := hslash.1.last hne
    rw [← habove] at hlast
    exact absurd hlast (by decide +kernel)
  · exact ⟨hread, pre, stretch, behind, hsplit, hlength, hblock.1, hblock.2.1⟩

/-- A comment behind a call. -/
def commentedCall : List Text := ["open(); /* wait */", "save();"]

/-- The call is read too: what is read is neither a run of line comments nor the text of a block
comment that ends there. -/
theorem code_is_read : commentAbove? commentedCall 2 = some "open(); /* wait" ∧
    ¬ ∃ pre stretch, commentedCall.take 1 = pre ++ stretch ∧
      (IsSlashStretch pre stretch ∧ "open(); /* wait" = joinWords (stretch.map slashText) ∨
        ∃ body, EndsWithComment (pre ++ stretch) body ∧ "open(); /* wait" = bodyText body) := by
  refine ⟨by decide +kernel, ?_⟩
  rintro ⟨pre, stretch, habove, ⟨hslash, htext⟩ | ⟨body, hends, htext⟩⟩
  · have hne : stretch ≠ [] := fun hnil => by
      rw [hnil] at htext
      exact absurd htext (by decide +kernel)
    have hlast := hslash.last hne
    rw [← habove] at hlast
    exact absurd hlast (by decide +kernel)
  · rw [← habove] at hends
    have hcount := hends.count_slash
    rw [← count_bodyText, ← htext] at hcount
    exact absurd hcount (by decide +kernel)

end Document
end SuiteAudit
