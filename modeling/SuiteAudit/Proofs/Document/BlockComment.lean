import SuiteAudit.Document.Title
import SuiteAudit.Proofs.Text.Infix
import SuiteAudit.Proofs.Text.Lines
import SuiteAudit.Proofs.Text.Blanks

/-! # Block comments

Of a line of a block comment the reader drops an opening, a closing and the blanks and stars around
the rest.  Within a comment this leaves the text of the line (`blockText_inner`), also where the
comment opens (`blockText_opening`) or ends (`blockText_closing`).  So lines that are one comment are
read as the lines of its text (`IsBlockComment.map_blockText`). -/

namespace SuiteAudit
namespace Document

/-! ### Delimiters -/

def opensBlock (line : Text) : Bool := Text.startsWith (Text.trim line) "/*"

def closesBlock (line : Text) : Bool := Text.endsWith (Text.trim line) "*/"

theorem dropStart_append (w t : Text) : Text.dropStart w (w ++ t) = t := by
  rw [Text.dropStart, if_pos, List.drop_left]
  exact List.isPrefixOf_iff_prefix.mpr (List.prefix_append w t)

theorem dropStart_of_not_prefix {w t : Text} (h : ¬ w <+: t) : Text.dropStart w t = t :=
  if_neg fun hp => h (List.isPrefixOf_iff_prefix.mp hp)

theorem dropStart_suffix (w t : Text) : Text.dropStart w t <:+ t := by
  rw [Text.dropStart]
  split
  · exact List.drop_suffix _ _
  · exact List.suffix_refl _

theorem dropEnding_append (t w : Text) : Text.dropEnding w (t ++ w) = t := by
  rw [Text.dropEnding, if_pos]
  · simp
  · exact List.isSuffixOf_iff_suffix.mpr (List.suffix_append t w)

theorem dropEnding_of_not_suffix {w t : Text} (h : ¬ w <:+ t) : Text.dropEnding w t = t :=
  if_neg fun hs => h (List.isSuffixOf_iff_suffix.mp hs)

/-- A line without the opening of a comment at its beginning. -/
def dropOpening (t : Text) : Text := Text.dropStart "/*" (Text.dropStart "/**" t)

theorem dropOpening_of_not_opening {t : Text} (h : ¬ ("/*" : Text) <+: t) : dropOpening t = t := by
  have hdoc : ¬ ("/**" : Text) <+: t := fun hp => h (List.IsPrefix.trans ⟨"*", rfl⟩ hp)
  rw [dropOpening, dropStart_of_not_prefix hdoc, dropStart_of_not_prefix h]

/-- An opening is dropped with the star behind it, unless this star closes the comment. -/
theorem dropOpening_append {t : Text} (h : ¬ ("*/" : Text) <+: t) :
    dropOpening ('/' :: '*' :: t) = Text.dropStart "*" t := by
  by_cases hstar : ("*" : Text) <+: t
  · obtain ⟨r, rfl⟩ := hstar
    have hr : ¬ ("/*" : Text) <+: r := fun ⟨u, e⟩ => h ⟨'*' :: u, by rw [← e]; rfl⟩
    have hdoc : Text.dropStart "/**" ('/' :: '*' :: (("*" : Text) ++ r)) = r := dropStart_append "/**" r
    rw [dropOpening, hdoc, dropStart_of_not_prefix hr, dropStart_append]
  · have hdoc : ¬ ("/**" : Text) <+: '/' :: '*' :: t := fun ⟨u, e⟩ => hstar ⟨u, by simpa using e⟩
    have hopen : Text.dropStart "/*" ('/' :: '*' :: t) = t := dropStart_append "/*" t
    rw [dropOpening, dropStart_of_not_prefix hdoc, hopen, dropStart_of_not_prefix hstar]

/-! ### Lines of a comment -/

theorem blockText_eq (line : Text) : blockText line =
    commentLine (Text.dropEnding "*/" (dropOpening (Text.trim line))) := rfl

theorem commentLine_congr {s t : Text} (h : Text.trim s = Text.trim t) :
    commentLine s = commentLine t := by
  rw [commentLine, h, commentLine]

theorem opensBlock_iff {line : Text} :
    opensBlock line = true ↔ ("/*" : Text) <+: Text.trim line :=
  List.isPrefixOf_iff_prefix

theorem dropOpening_trim {line : Text} (h : opensBlock line = false) :
    dropOpening (Text.trim line) = Text.trim line :=
  dropOpening_of_not_opening fun hp => Bool.eq_false_iff.mp h (opensBlock_iff.mpr hp)

/-- A line within a comment. -/
theorem blockText_inner {line : Text} (hopens : opensBlock line = false)
    (hclosed : ¬ ("*/" : Text) <:+: line) : blockText line = commentLine line := by
  have hcloses : ¬ ("*/" : Text) <:+ Text.trim line := fun hs =>
    hclosed (hs.isInfix.trans (Text.infix_of_trim line))
  rw [blockText_eq, dropOpening_trim hopens, dropEnding_of_not_suffix hcloses]
  exact commentLine_congr (Text.trim_trim line)

theorem isBlank_slash : Text.isBlank '/' = false := by decide

theorem isBlank_star : Text.isBlank '*' = false := by decide

theorem dropStar_cons (c : Char) (t : Text) :
    Text.dropStart "*" (c :: t) = if c = '*' then t else c :: t := by
  split
  · next h =>
      rw [h]
      exact dropStart_append "*" t
  · next h => exact dropStart_of_not_prefix fun ⟨_, e⟩ => h (List.head_eq_of_cons_eq e).symm

theorem dropStar_append {s : Text} (hs : s ≠ []) (t : Text) :
    Text.dropStart "*" (s ++ t) = Text.dropStart "*" s ++ t := by
  cases s with
  | nil => exact absurd rfl hs
  | cons c s =>
      rw [List.cons_append, dropStar_cons, dropStar_cons]
      split <;> rfl

/-- A text is empty or begins with no blank. -/
def IsTrimmedStart (t : Text) : Prop := t = [] ∨ t.head?.any (! Text.isBlank ·) = true

theorem IsTrimmedStart.head?_append {t r : Text} (ht : IsTrimmedStart t)
    (hr : r.head?.any (! Text.isBlank ·) = true) :
    (t ++ r).head?.any (! Text.isBlank ·) = true := by
  rcases ht with rfl | ht
  · exact hr
  · cases t with
    | nil => cases ht
    | cons c t => exact ht

/-- Behind a closing blanks are trimmed. -/
theorem trim_closing {ws t ws' : Text} (hws : ∀ c ∈ ws, Text.isBlank c = true)
    (ht : IsTrimmedStart t) (hws' : ∀ c ∈ ws', Text.isBlank c = true) :
    Text.trim (ws ++ (t ++ '*' :: '/' :: ws')) = t ++ ("*/" : Text) := by
  have hsolid : Text.IsSolid (t ++ ['*', '/']) :=
    ⟨ht.head?_append (by simp [isBlank_star]), by simp [isBlank_slash]⟩
  have hline : ws ++ (t ++ '*' :: '/' :: ws') = ws ++ (t ++ ['*', '/'] ++ ws') := by simp
  rw [hline, Text.trim_surrounded hws hws' hsolid]
  rfl

/-- Behind an opening the end is trimmed alone. -/
theorem trim_opening {ws s t : Text} (hws : ∀ c ∈ ws, Text.isBlank c = true)
    (hs : IsTrimmedStart s) :
    Text.trim (ws ++ (s ++ '/' :: '*' :: t)) = s ++ '/' :: '*' :: Text.trimEnd t := by
  obtain ⟨b, hb, e⟩ := Text.exists_trimEnd t
  have hsolid : Text.IsSolid (s ++ '/' :: '*' :: Text.trimEnd t) := by
    refine ⟨hs.head?_append (by simp [isBlank_slash]), ?_⟩
    rw [List.getLast?_append]
    rcases Text.trimEnd_eq_nil_or_getLast t with h | h
    · simp [h, isBlank_star]
    · cases hc : Text.trimEnd t with
      | nil => simp [isBlank_star]
      | cons c r =>
          rw [hc] at h
          simpa [List.getLast?_cons] using h
  have hline : ws ++ (s ++ '/' :: '*' :: t) = ws ++ (s ++ '/' :: '*' :: Text.trimEnd t ++ b) := by
    conv => lhs; rw [e]
    simp
  rw [hline, Text.trim_surrounded hws hb hsolid]

/-- The last line of a comment. -/
theorem blockText_closing {t ws : Text} (hws : ∀ c ∈ ws, Text.isBlank c = true)
    (hopens : opensBlock (t ++ '*' :: '/' :: ws) = false) :
    blockText (t ++ '*' :: '/' :: ws) = commentLine t := by
  obtain ⟨a, ha, e⟩ := Text.exists_trimStart t
  have htrim : Text.trim (t ++ '*' :: '/' :: ws) = Text.trimStart t ++ ("*/" : Text) := by
    conv => lhs; rw [e, List.append_assoc]
    exact trim_closing ha (Text.trimStart_eq_nil_or_head t) hws
  rw [blockText_eq, dropOpening_trim hopens, htrim, dropEnding_append]
  refine commentLine_congr ?_
  conv => rhs; rw [e]
  exact (Text.trim_append_left ha _).symm

/-- The first line of a comment that goes on below. -/
theorem blockText_opening {t ws : Text} (hws : ∀ c ∈ ws, Text.isBlank c = true)
    (hclosed : ¬ ("*/" : Text) <:+: t) :
    blockText (ws ++ '/' :: '*' :: t) = commentLine (Text.dropStart "*" t) := by
  obtain ⟨b, hb, e⟩ := Text.exists_trimEnd t
  have hprefix : Text.trimEnd t <+: t := ⟨b, e.symm⟩
  have htrim : Text.trim (ws ++ '/' :: '*' :: t) = '/' :: '*' :: Text.trimEnd t :=
    trim_opening (s := []) hws (.inl rfl)
  have hopening : ¬ ("*/" : Text) <+: Text.trimEnd t := fun hp =>
    hclosed (hp.isInfix.trans hprefix.isInfix)
  have hending : ¬ ("*/" : Text) <:+ Text.dropStart "*" (Text.trimEnd t) := fun hs =>
    hclosed ((hs.trans (dropStart_suffix "*" _)).isInfix.trans hprefix.isInfix)
  rw [blockText_eq, htrim, dropOpening_append hopening, dropEnding_of_not_suffix hending]
  refine commentLine_congr ?_
  conv => rhs; rw [e]
  by_cases hnil : Text.trimEnd t = []
  · have hstar : Text.dropStart "*" b = b := dropStart_of_not_prefix fun ⟨r, e⟩ => by
      have := hb '*' (by rw [← e]; exact List.mem_cons_self)
      rw [isBlank_star] at this
      cases this
    rw [hnil, List.nil_append, hstar, Text.trim_of_blank hb]
    rfl
  · rw [dropStar_append hnil, Text.trim_append_right hb]

/-- A comment on one line. -/
theorem blockText_single {t ws ws' : Text} (hws : ∀ c ∈ ws, Text.isBlank c = true)
    (hws' : ∀ c ∈ ws', Text.isBlank c = true) (ht : t ≠ [])
    (hclosed : ¬ ("*/" : Text) <:+: t ++ ['*']) :
    blockText (ws ++ '/' :: '*' :: (t ++ '*' :: '/' :: ws')) = commentLine (Text.dropStart "*" t) := by
  have htrim : Text.trim (ws ++ '/' :: '*' :: (t ++ '*' :: '/' :: ws')) =
      '/' :: '*' :: (t ++ ("*/" : Text)) :=
    trim_closing (t := '/' :: '*' :: t) hws (.inr (by simp [isBlank_slash])) hws'
  have hopening : ¬ ("*/" : Text) <+: t ++ ("*/" : Text) := by
    intro hp
    have hsplit : t ++ ("*/" : Text) = (t ++ ['*']) ++ ['/'] := by
      rw [List.append_assoc]
      rfl
    have hlength : 2 ≤ (t ++ ['*']).length := by
      have := List.length_pos_iff.mpr ht
      simp only [List.length_append, List.length_singleton]
      omega
    rw [hsplit] at hp
    exact hclosed (List.prefix_of_prefix_length_le hp (List.prefix_append _ _) hlength).isInfix
  rw [blockText_eq, htrim, dropOpening_append hopening, dropStar_append ht, dropEnding_append]

/-! ### Comments -/

/-- The text between the delimiters of a block comment: its lines without the blanks and stars around
them. -/
def bodyText (body : Text) : Text :=
  joinWords ((Text.lines (Text.dropStart "*" body)).map commentLine)

/-- The lines are one block comment with this text, not empty, between its delimiters. -/
structure IsBlockComment (stretch : List Text) (body : Text) : Prop where
  nonempty : body ≠ []
  unclosed : ¬ ("*/" : Text) <:+: body ++ ['*']
  form : ∃ ws ws', (∀ c ∈ ws, Text.isBlank c = true) ∧ '\n' ∉ ws ∧
    (∀ c ∈ ws', Text.isBlank c = true) ∧ '\n' ∉ ws' ∧
      Text.joinLines stretch = ws ++ ('/' :: '*' :: (body ++ '*' :: '/' :: ws'))

/-- The lines of a comment below its first one. -/
theorem map_blockText_lines {t ws : Text} (hws : ∀ c ∈ ws, Text.isBlank c = true)
    (hline : '\n' ∉ ws) (hclosed : ¬ ("*/" : Text) <:+: t)
    (hopens : ∀ line ∈ Text.lines (t ++ '*' :: '/' :: ws), opensBlock line = false) :
    (Text.lines (t ++ '*' :: '/' :: ws)).map blockText = (Text.lines t).map commentLine := by
  induction t using Text.lines_induction with
  | last x hx =>
      have hall : '\n' ∉ x ++ '*' :: '/' :: ws := by simp [hx, hline]
      rw [Text.lines_of_newline_not_mem hall] at hopens ⊢
      rw [Text.lines_of_newline_not_mem hx, List.map_singleton,
        blockText_closing hws (hopens _ (List.mem_singleton_self _)), List.map_singleton]
  | more x u hx ih =>
      have hlines : Text.lines (x ++ '\n' :: u ++ '*' :: '/' :: ws) =
          x :: Text.lines (u ++ '*' :: '/' :: ws) := by
        rw [List.append_assoc, List.cons_append, Text.lines_append_newline,
          Text.lines_of_newline_not_mem hx]
        rfl
      rw [hlines] at hopens ⊢
      rw [List.forall_mem_cons] at hopens
      have hinner := blockText_inner hopens.1 fun h => hclosed (h.trans ⟨[], '\n' :: u, rfl⟩)
      have hrest := ih (fun h => hclosed (h.trans ⟨x ++ ['\n'], [], by simp⟩)) hopens.2
      rw [Text.lines_append_newline, Text.lines_of_newline_not_mem hx, List.map_cons, hinner, hrest]
      rfl

/-- Where the lines that are read are one comment, they are read as its lines. -/
theorem IsBlockComment.map_blockText {stretch : List Text} {body : Text}
    (h : IsBlockComment stretch body) (hne : stretch ≠ []) (hlines : ∀ line ∈ stretch, '\n' ∉ line)
    (hnearest : ∀ line ∈ stretch.tail, opensBlock line = false) :
    stretch.map blockText = (Text.lines (Text.dropStart "*" body)).map commentLine := by
  obtain ⟨hbody, hclosed, ws, ws', hws, hline, hws', hline', hform⟩ := h
  have hclosed' : ¬ ("*/" : Text) <:+: body := fun hi =>
    hclosed (hi.trans (List.prefix_append body ['*']).isInfix)
  have hstretch : stretch = Text.lines (ws ++ ('/' :: '*' :: (body ++ '*' :: '/' :: ws'))) := by
    rw [← hform, Text.lines_joinLines hne hlines]
  by_cases hmem : '\n' ∈ body
  · obtain ⟨x, u, rfl, hx⟩ := List.eq_append_cons_of_mem hmem
    have hfirst : '\n' ∉ ws ++ '/' :: '*' :: x := by simp [hline, hx]
    have hsplit : stretch = (ws ++ '/' :: '*' :: x) :: Text.lines (u ++ '*' :: '/' :: ws') := by
      have : ws ++ ('/' :: '*' :: (x ++ '\n' :: u ++ '*' :: '/' :: ws')) =
          (ws ++ '/' :: '*' :: x) ++ '\n' :: (u ++ '*' :: '/' :: ws') := by
        simp
      rw [hstretch, this, Text.lines_append_newline, Text.lines_of_newline_not_mem hfirst]
      rfl
    have hstar : Text.dropStart "*" (x ++ '\n' :: u) = Text.dropStart "*" x ++ '\n' :: u := by
      cases x with
      | nil => rfl
      | cons c x => exact dropStar_append (List.cons_ne_nil c x) _
    have hx' : '\n' ∉ Text.dropStart "*" x := fun hm => hx ((dropStart_suffix "*" x).subset hm)
    rw [hsplit] at hnearest ⊢
    rw [hstar, Text.lines_append_newline, Text.lines_of_newline_not_mem hx', List.map_cons,
      blockText_opening hws fun h => hclosed' (h.trans ⟨[], '\n' :: u, rfl⟩),
      map_blockText_lines hws' hline' (fun h => hclosed' (h.trans ⟨x ++ ['\n'], [], by simp⟩)) hnearest]
    rfl
  · have hall : '\n' ∉ ws ++ ('/' :: '*' :: (body ++ '*' :: '/' :: ws')) := by
      simp [hline, hmem, hline']
    have hbody' : '\n' ∉ Text.dropStart "*" body := fun hm => hmem ((dropStart_suffix "*" body).subset hm)
    rw [hstretch, Text.lines_of_newline_not_mem hall, Text.lines_of_newline_not_mem hbody',
      List.map_singleton, blockText_single hws hws' hbody hclosed, List.map_singleton]

end Document
end SuiteAudit
