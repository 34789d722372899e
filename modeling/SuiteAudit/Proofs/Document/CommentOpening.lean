import SuiteAudit.Proofs.Document.BlockComment

/-! # Where a block comment opens

The reader takes the lines up to one that begins with an opening.  A comment that opens behind other
text on its line is therefore read with this text, and this shows in the number of slashes: the lines
of a comment keep those between its delimiters, and an opening that is read adds one
(`count_lt_opening`, `count_lt_single`).  So where what is read is the text of a comment, the lines
that are read are a comment (`EndsWithComment.isBlockComment`).  Delimiters that share a character
(`SeparateDelimiters`) are left out: one of them goes with the other. -/

namespace SuiteAudit
namespace Document

variable {s t body : Text}

/-- The lines end with a block comment with this text between its delimiters. -/
structure EndsWithComment (lines : List Text) (body : Text) : Prop where
  unclosed : ¬ ("*/" : Text) <:+: body ++ ['*']
  form : ∃ a ws, (∀ c ∈ ws, Text.isBlank c = true) ∧ '\n' ∉ ws ∧
    Text.joinLines lines = a ++ '/' :: '*' :: (body ++ '*' :: '/' :: ws)

/-- No opening shares a character with a closing. -/
structure SeparateDelimiters (t : Text) : Prop where
  star : ¬ ("/*/" : Text) <:+: t
  slash : ¬ ("*/*" : Text) <:+: t

theorem SeparateDelimiters.within (h : SeparateDelimiters t) (hst : s <:+: t) :
    SeparateDelimiters s :=
  ⟨fun hs => h.star (hs.trans hst), fun hs => h.slash (hs.trans hst)⟩

/-! ### Counting slashes -/

theorem count_slash_of_blank (h : ∀ c ∈ t, Text.isBlank c = true) : t.count '/' = 0 :=
  List.count_eq_zero.mpr fun hm => by
    have := h _ hm
    rw [isBlank_slash] at this
    cases this

theorem count_trim (t : Text) : (Text.trim t).count '/' = t.count '/' := by
  obtain ⟨a, b, ha, hb, e⟩ := Text.exists_trim t
  conv => rhs; rw [e]
  rw [List.count_append, List.count_append, count_slash_of_blank ha, count_slash_of_blank hb]
  omega

theorem count_trimEnd (t : Text) : (Text.trimEnd t).count '/' = t.count '/' := by
  obtain ⟨b, hb, e⟩ := Text.exists_trimEnd t
  conv => rhs; rw [e]
  rw [List.count_append, count_slash_of_blank hb, Nat.add_zero]

theorem count_commentLine (t : Text) : (commentLine t).count '/' = t.count '/' := by
  have hstars (t : Text) : (t.dropWhile (· = '*')).count '/' = t.count '/' := by
    have hnone : (t.takeWhile (· = '*')).count '/' = 0 := by
      refine List.count_eq_zero.mpr fun hm => ?_
      have := List.all_eq_true.mp List.all_takeWhile _ hm
      cases of_decide_eq_true this
    conv => rhs; rw [← List.takeWhile_append_dropWhile (p := fun c => decide (c = '*')) (l := t)]
    rw [List.count_append, hnone, Nat.zero_add]
  rw [commentLine, count_trim, hstars, count_trim]

theorem count_joinWords {c : Char} (hc : c ≠ ' ') (ts : List Text) :
    (joinWords ts).count c = ts.flatten.count c := by
  have hblank : (" " : Text).count c = 0 := List.count_eq_zero.mpr fun h => hc (by simpa using h)
  have hjoin (ps : List Text) : (Text.join " " ps).count c = ps.flatten.count c := by
    induction ps with
    | nil => rfl
    | cons a ps ih =>
        cases ps with
        | nil => rw [Text.join_singleton, List.flatten_singleton]
        | cons b ps =>
            rw [Text.join_cons_cons, List.count_append, List.count_append, ih, hblank]
            simp
  have hfilled : (ts.filter fun t => !t.isEmpty).flatten = ts.flatten :=
    List.flatten_filter_not_isEmpty
  rw [joinWords, hjoin, hfilled]

theorem count_lines (t : Text) : (Text.lines t).flatten.count '/' = t.count '/' := by
  induction t using Text.lines_induction with
  | last x hx => rw [Text.lines_of_newline_not_mem hx, List.flatten_singleton]
  | more x u hx ih =>
      rw [Text.lines_append_newline, Text.lines_of_newline_not_mem hx]
      simp [ih]

theorem count_commentLines (t : Text) :
    ((Text.lines t).map commentLine).flatten.count '/' = t.count '/' := by
  have hmap (ts : List Text) : (ts.map commentLine).flatten.count '/' = ts.flatten.count '/' := by
    induction ts with
    | nil => rfl
    | cons t ts ih =>
        rw [List.map_cons, List.flatten_cons, List.flatten_cons, List.count_append, List.count_append,
          ih, count_commentLine]
  rw [hmap, count_lines]

theorem count_dropStar (t : Text) : (Text.dropStart "*" t).count '/' = t.count '/' := by
  cases t with
  | nil => rfl
  | cons c t =>
      rw [dropStar_cons]
      split
      · next h => simp [h]
      · rfl

theorem count_bodyText (body : Text) : (bodyText body).count '/' = body.count '/' := by
  rw [bodyText, count_joinWords (by decide), count_commentLines, count_dropStar]

theorem count_dropEnding (t : Text) :
    t.count '/' ≤ (Text.dropEnding "*/" t).count '/' + 1 := by
  by_cases h : ("*/" : Text) <:+ t
  · obtain ⟨r, rfl⟩ := h
    rw [dropEnding_append, List.count_append]
    exact Nat.le_refl _
  · rw [dropEnding_of_not_suffix h]
    omega

/-! ### An opening behind other text -/

theorem dropOpening_suffix (t : Text) : dropOpening t <:+ t :=
  (dropStart_suffix _ _).trans (dropStart_suffix _ _)

theorem count_dropOpening_append (ht : SeparateDelimiters t) :
    (dropOpening ('/' :: '*' :: t)).count '/' = t.count '/' := by
  by_cases hclose : ("*/" : Text) <+: t
  · obtain ⟨r, rfl⟩ := hclose
    have hstar : ¬ ("/*" : Text) <+: ("/" : Text) ++ r := by
      rintro ⟨u, e⟩
      have e : '*' :: u = r := List.tail_eq_of_cons_eq e
      exact ht.slash ⟨[], u, by rw [← e]; rfl⟩
    have hdoc : Text.dropStart "/**" ('/' :: '*' :: (("*/" : Text) ++ r)) = ("/" : Text) ++ r :=
      dropStart_append "/**" (("/" : Text) ++ r)
    rw [dropOpening, hdoc, dropStart_of_not_prefix hstar, List.count_append, List.count_append]
    rfl
  · rw [dropOpening_append hclose, count_dropStar]

/-- An opening that does not begin the text is not dropped. -/
theorem count_dropOpening (hs : s ≠ []) (h : SeparateDelimiters (s ++ '/' :: '*' :: t)) :
    t.count '/' + 1 ≤ (dropOpening (s ++ '/' :: '*' :: t)).count '/' := by
  by_cases hopen : ("/*" : Text) <+: s ++ '/' :: '*' :: t
  · obtain ⟨y, e⟩ := hopen
    have hy : ∃ s', y = s' ++ '/' :: '*' :: t := by
      match s, hs with
      | [c], _ => cases e
      | c :: d :: s', _ => exact ⟨s', (List.cons.inj (List.cons.inj e).2).2⟩
    obtain ⟨s', rfl⟩ := hy
    rw [← e] at h ⊢
    have hrest := h.within (List.suffix_append ("/*" : Text) (s' ++ '/' :: '*' :: t)).isInfix
    refine Nat.le_trans ?_ (Nat.le_of_eq (count_dropOpening_append hrest).symm)
    simp
  · rw [dropOpening_of_not_opening hopen]
    simp

/-- Nor does it make a closing. -/
theorem not_closing_suffix (hclosed : ¬ ("*/" : Text) <:+: t)
    (h : SeparateDelimiters (s ++ '/' :: '*' :: t)) :
    ¬ ("*/" : Text) <:+ s ++ '/' :: '*' :: t := by
  intro hsuffix
  match t with
  | [] =>
      have := List.suffix_of_suffix_length_le hsuffix (List.suffix_append s ['/', '*']) (by decide)
      exact absurd this (by decide)
  | [c] =>
      have hend : ['*', c] <:+ s ++ '/' :: '*' :: [c] := ⟨s ++ ['/'], by simp⟩
      have hlast := List.suffix_of_suffix_length_le hsuffix hend (Nat.le_refl 2)
      obtain rfl : c = '/' := by simpa using (hlast.eq_of_length rfl).symm
      exact h.star (List.suffix_append s _).isInfix
  | c :: d :: t =>
      have hlast : c :: d :: t <:+ s ++ '/' :: '*' :: c :: d :: t := ⟨s ++ ['/', '*'], by simp⟩
      have hlength : ("*/" : Text).length ≤ (c :: d :: t).length := by
        show 2 ≤ _
        simp
      exact hclosed (List.suffix_of_suffix_length_le hsuffix hlast hlength).isInfix

theorem trimStart_ne_nil (hs : ¬ ∀ c ∈ s, Text.isBlank c = true) : Text.trimStart s ≠ [] :=
  fun h => hs fun c hc => by
    obtain ⟨a, ha, e⟩ := Text.exists_trimStart s
    rw [h, List.append_nil] at e
    exact ha c (e ▸ hc)

/-- An opening behind other text is read with it, on a line below which the comment goes on ... -/
theorem count_lt_opening (hs : ¬ ∀ c ∈ s, Text.isBlank c = true)
    (hclosed : ¬ ("*/" : Text) <:+: t) (h : SeparateDelimiters (s ++ '/' :: '*' :: t)) :
    t.count '/' < (blockText (s ++ '/' :: '*' :: t)).count '/' := by
  obtain ⟨a, ha, e⟩ := Text.exists_trimStart s
  obtain ⟨b, -, e'⟩ := Text.exists_trimEnd t
  have htrim : Text.trim (s ++ '/' :: '*' :: t) =
      Text.trimStart s ++ '/' :: '*' :: Text.trimEnd t := by
    conv => lhs; rw [e, List.append_assoc]
    exact trim_opening ha (Text.trimStart_eq_nil_or_head s)
  have hinside := Text.infix_of_trim (s ++ '/' :: '*' :: t)
  rw [htrim] at hinside
  have hopening := count_dropOpening (trimStart_ne_nil hs) (h.within hinside)
  have hending : ¬ ("*/" : Text) <:+ dropOpening (Text.trimStart s ++ '/' :: '*' :: Text.trimEnd t) :=
    fun hsuffix => not_closing_suffix (fun hi => hclosed (hi.trans ⟨[], b, e'.symm⟩))
      (h.within hinside) (hsuffix.trans (dropOpening_suffix _))
  rw [blockText_eq, htrim, dropEnding_of_not_suffix hending, count_commentLine]
  rw [count_trimEnd] at hopening
  exact hopening

/-- ... and on one that ends with it. -/
theorem count_lt_single {ws : Text} (hs : ¬ ∀ c ∈ s, Text.isBlank c = true)
    (hws : ∀ c ∈ ws, Text.isBlank c = true)
    (h : SeparateDelimiters (s ++ '/' :: '*' :: (t ++ '*' :: '/' :: ws))) :
    t.count '/' < (blockText (s ++ '/' :: '*' :: (t ++ '*' :: '/' :: ws))).count '/' := by
  obtain ⟨a, ha, e⟩ := Text.exists_trimStart s
  have htrim : Text.trim (s ++ '/' :: '*' :: (t ++ '*' :: '/' :: ws)) =
      Text.trimStart s ++ '/' :: '*' :: (t ++ ("*/" : Text)) := by
    have hline : s ++ '/' :: '*' :: (t ++ '*' :: '/' :: ws) =
        a ++ (Text.trimStart s ++ '/' :: '*' :: t ++ '*' :: '/' :: ws) := by
      conv => lhs; rw [e]
      simp
    have hstart : IsTrimmedStart (Text.trimStart s ++ '/' :: '*' :: t) :=
      .inr (IsTrimmedStart.head?_append (Text.trimStart_eq_nil_or_head s) (by simp [isBlank_slash]))
    rw [hline, trim_closing ha hstart hws, List.append_assoc]
    rfl
  have hinside := Text.infix_of_trim (s ++ '/' :: '*' :: (t ++ '*' :: '/' :: ws))
  rw [htrim] at hinside
  have hopening := count_dropOpening (trimStart_ne_nil hs) (h.within hinside)
  have hending := count_dropEnding (dropOpening (Text.trimStart s ++ '/' :: '*' :: (t ++ ("*/" : Text))))
  have hslash : (t ++ ("*/" : Text)).count '/' = t.count '/' + 1 := List.count_append
  rw [blockText_eq, htrim, count_commentLine]
  omega

theorem count_map_blockText (before behind : List Text) (line : Text) :
    (blockText line).count '/' + (behind.map blockText).flatten.count '/' ≤
      (joinWords ((before ++ line :: behind).map blockText)).count '/' := by
  rw [count_joinWords (by decide)]
  simp

/-! ### A comment that ends above -/

theorem exists_of_opensBlock {line : Text} (h : opensBlock line = true) :
    ∃ ws t, (∀ c ∈ ws, Text.isBlank c = true) ∧ line = ws ++ ['/', '*'] ++ t := by
  obtain ⟨t, ht⟩ := opensBlock_iff.mp h
  obtain ⟨a, b, ha, -, e⟩ := Text.exists_trim line
  refine ⟨a, t ++ b, ha, ?_⟩
  conv => lhs; rw [e, ← ht]
  simp

theorem opensBlock_of_blank {ws : Text} (hws : ∀ c ∈ ws, Text.isBlank c = true) (t : Text) :
    opensBlock (ws ++ '/' :: '*' :: t) = true := by
  have htrim : Text.trim (ws ++ '/' :: '*' :: t) = '/' :: '*' :: Text.trimEnd t :=
    trim_opening (s := []) hws (.inl rfl)
  rw [opensBlock_iff, htrim]
  exact ⟨_, rfl⟩

/-- The first line of a comment and the lines below it. -/
theorem lines_of_comment (body : Text) {ws : Text} (hws : '\n' ∉ ws) :
    Text.lines ('/' :: '*' :: (body ++ '*' :: '/' :: ws)) =
      ['/' :: '*' :: (body ++ '*' :: '/' :: ws)] ∨
    ∃ x u, body = x ++ '\n' :: u ∧ Text.lines ('/' :: '*' :: (body ++ '*' :: '/' :: ws)) =
      ('/' :: '*' :: x) :: Text.lines (u ++ '*' :: '/' :: ws) := by
  by_cases hmem : '\n' ∈ body
  · obtain ⟨x, u, rfl, hx⟩ := List.eq_append_cons_of_mem hmem
    have hsplit : '/' :: '*' :: (x ++ '\n' :: u ++ '*' :: '/' :: ws) =
        ('/' :: '*' :: x) ++ '\n' :: (u ++ '*' :: '/' :: ws) := by simp
    refine .inr ⟨x, u, rfl, ?_⟩
    rw [hsplit, Text.lines_append_newline, Text.lines_of_newline_not_mem (by simp [hx])]
    rfl
  · exact .inl (Text.lines_of_newline_not_mem (by simp [hmem, hws]))

theorem joinLines_append_cons (x y : Text) (behind : List Text) :
    Text.joinLines ((x ++ y) :: behind) = x ++ Text.joinLines (y :: behind) := by
  cases behind with
  | nil => rw [Text.joinLines_singleton, Text.joinLines_singleton]
  | cons line behind => rw [Text.joinLines_cons_cons, Text.joinLines_cons_cons, List.append_assoc]

/-- A comment that opens its line. -/
theorem opensBlock_of_lines {x y ws : Text} {behind : List Text}
    (hx : ∀ c ∈ x, Text.isBlank c = true) (hws : '\n' ∉ ws)
    (hlines : Text.lines ('/' :: '*' :: (body ++ '*' :: '/' :: ws)) = y :: behind) :
    opensBlock (x ++ y) = true := by
  rcases lines_of_comment body hws with h | ⟨b, u, -, h⟩
  all_goals
    rw [h] at hlines
    rw [← List.head_eq_of_cons_eq hlines]
    exact opensBlock_of_blank hx _

/-- A comment that opens behind other text is read with one slash more than it has. -/
theorem count_lt_read {x y ws : Text} (before : List Text) {behind : List Text}
    (hx : ¬ ∀ c ∈ x, Text.isBlank c = true) (hws : ∀ c ∈ ws, Text.isBlank c = true)
    (hline : '\n' ∉ ws) (hclosed : ¬ ("*/" : Text) <:+: body)
    (hlines : Text.lines ('/' :: '*' :: (body ++ '*' :: '/' :: ws)) = y :: behind)
    (hbehind : ∀ line ∈ behind, opensBlock line = false) (hshared : SeparateDelimiters (x ++ y)) :
    body.count '/' < (joinWords ((before ++ (x ++ y) :: behind).map blockText)).count '/' := by
  have hread := count_map_blockText before behind (x ++ y)
  rcases lines_of_comment body hline with h | ⟨b, u, rfl, h⟩
  · rw [h] at hlines
    obtain ⟨rfl, rfl⟩ := List.cons.inj hlines
    have := count_lt_single hx hws hshared
    omega
  · rw [h] at hlines
    obtain ⟨rfl, rfl⟩ := List.cons.inj hlines
    have hfirst := count_lt_opening hx (fun h => hclosed (h.trans ⟨[], '\n' :: u, rfl⟩)) hshared
    have hrest := map_blockText_lines hws hline
      (fun h => hclosed (h.trans ⟨b ++ ['\n'], [], by simp⟩)) hbehind
    have hslashes : (b ++ '\n' :: u).count '/' = b.count '/' + u.count '/' := by simp
    rw [hrest, count_commentLines] at hread
    rw [hslashes]
    omega

variable {stretch : List Text}

/-- A comment that opens within the lines that are read opens the first one. -/
theorem EndsWithComment.isBlockComment_of_inside (h : EndsWithComment stretch body)
    (hne : stretch ≠ []) (hlines : ∀ line ∈ stretch, '\n' ∉ line)
    (hnearest : ∀ line ∈ stretch.tail, opensBlock line = false)
    (hshared : SeparateDelimiters (Text.joinLines stretch)) (hbody : body ≠ [])
    (htext : joinWords (stretch.map blockText) = bodyText body) : IsBlockComment stretch body := by
  obtain ⟨hclosed, a, ws, hws, hline, e⟩ := h
  obtain ⟨before, x, y, behind, hsplit, hu, -, -⟩ :=
    Text.exists_lines_append a ('/' :: '*' :: (body ++ '*' :: '/' :: ws))
  rw [← e, Text.lines_joinLines hne hlines] at hsplit
  have hmem : x ++ y ∈ stretch := by simp [hsplit]
  have hinside : x ++ y <:+: Text.joinLines stretch :=
    Text.infix_of_mem_lines (by rwa [Text.lines_joinLines hne hlines])
  by_cases hx : ∀ c ∈ x, Text.isBlank c = true
  · have hbefore : before = [] := by
      cases before with
      | nil => rfl
      | cons line before =>
          have := hnearest (x ++ y) (by simp [hsplit])
          rw [opensBlock_of_lines hx hline hu] at this
          cases this
    have hxline : '\n' ∉ x := fun hm => hlines (x ++ y) hmem (List.mem_append_left y hm)
    refine ⟨hbody, hclosed, x, ws, hx, hxline, hws, hline, ?_⟩
    rw [hsplit, hbefore, List.nil_append, joinLines_append_cons, ← hu, Text.joinLines_lines]
  · have hclosed' : ¬ ("*/" : Text) <:+: body := fun hi =>
      hclosed (hi.trans (List.prefix_append body ['*']).isInfix)
    have hbehind : ∀ line ∈ behind, opensBlock line = false := fun line hm => hnearest line (by
      rw [hsplit]
      cases before <;> simp [hm])
    have hcount := count_lt_read before hx hws hline hclosed' hu hbehind (hshared.within hinside)
    rw [← hsplit, htext, count_bodyText] at hcount
    exact absurd hcount (Nat.lt_irrefl _)

theorem EndsWithComment.count_slash {lines : List Text} (h : EndsWithComment lines body) :
    body.count '/' + 2 ≤ (Text.joinLines lines).count '/' := by
  obtain ⟨-, a, ws, hws, -, e⟩ := h
  rw [e]
  simp [count_slash_of_blank hws]

/-- A comment that ends with some lines opens in them or above. -/
theorem EndsWithComment.of_append {pre : List Text} (h : EndsWithComment (pre ++ stretch) body)
    (hpre : pre ≠ []) (hne : stretch ≠ []) : EndsWithComment stretch body ∨
    ∃ above within ws, body = above ++ '\n' :: within ∧ (∀ c ∈ ws, Text.isBlank c = true) ∧
      '\n' ∉ ws ∧ Text.joinLines stretch = within ++ '*' :: '/' :: ws := by
  obtain ⟨hclosed, a, ws, hws, hline, e⟩ := h
  rw [Text.joinLines_append hpre hne, List.append_eq_append_iff] at e
  have hbehind : '\n' ∉ '*' :: '/' :: ws := by simp [hline]
  rcases e with ⟨c, -, e⟩ | ⟨c, -, e⟩
  · cases c with
    | nil => cases e
    | cons _ c =>
        obtain ⟨-, e⟩ := List.cons.inj e
        exact .inl ⟨hclosed, c, ws, hws, hline, e⟩
  · match c, e with
    | _ :: _ :: above, e =>
        have e : body ++ '*' :: '/' :: ws = above ++ '\n' :: Text.joinLines stretch :=
          (List.cons.inj (List.cons.inj e).2).2
        obtain ⟨within, rfl, hstretch⟩ := Text.exists_of_append_eq' hbehind e
        exact .inr ⟨above, within, ws, rfl, hws, hline, hstretch⟩

/-- Lines that begin with an opening and end with a closing. -/
theorem exists_body {w ws within r : Text} (hw : ∀ c ∈ w, Text.isBlank c = true)
    (h : SeparateDelimiters (within ++ '*' :: '/' :: ws))
    (e : within ++ '*' :: '/' :: ws = w ++ '/' :: '*' :: r) :
    ∃ body, within = w ++ '/' :: '*' :: body := by
  have e' := e
  rw [List.append_eq_append_iff] at e'
  rcases e' with ⟨c, rfl, hc⟩ | ⟨c, rfl, hc⟩
  · match c, hc with
    | _ :: c, hc =>
        obtain ⟨rfl, -⟩ := List.cons.inj hc
        have := hw '*' (by simp)
        rw [isBlank_star] at this
        cases this
  · match c, hc with
    | [_], hc =>
        obtain ⟨rfl, -⟩ := List.cons.inj hc
        exact absurd ⟨w, ws, by simp⟩ h.star
    | _ :: _ :: body, hc =>
        obtain ⟨rfl, -⟩ := List.cons.inj (List.cons.inj hc).2
        obtain ⟨rfl, -⟩ := List.cons.inj hc
        exact ⟨body, rfl⟩

/-- A comment with nothing between its delimiters is read as the slash of its closing, its star taken
for the second one of the opening. -/
theorem blockText_bare {ws ws' : Text} (hws : ∀ c ∈ ws, Text.isBlank c = true)
    (hws' : ∀ c ∈ ws', Text.isBlank c = true) :
    blockText (ws ++ '/' :: '*' :: '*' :: '/' :: ws') = ("/" : Text) := by
  have htrim : Text.trim (ws ++ '/' :: '*' :: '*' :: '/' :: ws') = ("/**/" : Text) :=
    trim_closing (t := ['/', '*']) hws (.inr (by simp [isBlank_slash])) hws'
  rw [blockText_eq, htrim]
  decide

/-- The text of a comment whose last line is an opening has the star of this one. -/
theorem star_mem_bodyText {ws : Text} (hws : ∀ c ∈ ws, Text.isBlank c = true) (hline : '\n' ∉ ws)
    (above : Text) : '*' ∈ bodyText (above ++ '\n' :: (ws ++ ['/', '*'])) := by
  have hlast : '\n' ∉ ws ++ ['/', '*'] := by simp [hline]
  have hstar : ∃ above', Text.dropStart "*" (above ++ '\n' :: (ws ++ ['/', '*'])) =
      above' ++ '\n' :: (ws ++ ['/', '*']) := by
    cases above with
    | nil => exact ⟨[], rfl⟩
    | cons c above => exact ⟨_, dropStar_append (List.cons_ne_nil c above) _⟩
  obtain ⟨above', hstar⟩ := hstar
  have hcomment : commentLine (ws ++ ['/', '*']) = ['/', '*'] :=
    (commentLine_congr (Text.trim_append_left hws _)).trans (by decide)
  rw [← List.count_pos_iff, bodyText, hstar, Text.lines_append_newline,
    Text.lines_of_newline_not_mem hlast, List.map_append, List.map_singleton, hcomment,
    count_joinWords (by decide)]
  simp

/-- Where what is read is the text of a comment that ends there, the lines that are read are a
comment. -/
theorem EndsWithComment.isBlockComment {pre : List Text} (h : EndsWithComment (pre ++ stretch) body)
    (hne : stretch ≠ []) (hlines : ∀ line ∈ stretch, '\n' ∉ line)
    (hopens : pre = [] ∨ stretch.head?.any opensBlock = true)
    (hnearest : ∀ line ∈ stretch.tail, opensBlock line = false)
    (hshared : SeparateDelimiters (Text.joinLines stretch)) (hfilled : bodyText body ≠ [])
    (htext : joinWords (stretch.map blockText) = bodyText body) :
    ∃ body', IsBlockComment stretch body' := by
  have hbody : body ≠ [] := fun hnil => hfilled (by rw [hnil]; rfl)
  rcases hopens with rfl | hopens
  · exact ⟨body, h.isBlockComment_of_inside hne hlines hnearest hshared hbody htext⟩
  rcases List.eq_nil_or_concat pre with rfl | ⟨_, _, hpre⟩
  · exact ⟨body, h.isBlockComment_of_inside hne hlines hnearest hshared hbody htext⟩
  have hclosed := h.unclosed
  rcases h.of_append (by rw [hpre]; simp) hne with h | ⟨above, within, ws, rfl, hws, hline, e⟩
  · exact ⟨body, h.isBlockComment_of_inside hne hlines hnearest hshared hbody htext⟩
  -- the comment opens above, and the lines that are read have an opening of their own
  obtain ⟨first, rest, rfl⟩ := List.exists_cons_of_ne_nil hne
  have hopens : opensBlock first = true := by simpa using hopens
  obtain ⟨w, r, hw, rfl⟩ := exists_of_opensBlock hopens
  have hwline : '\n' ∉ w := fun hm => hlines _ List.mem_cons_self (by simp [hm])
  rw [e] at hshared
  have hsplit : within ++ '*' :: '/' :: ws = w ++ '/' :: '*' :: Text.joinLines (r :: rest) := by
    rw [← e, joinLines_append_cons, List.append_assoc]
    rfl
  obtain ⟨body', rfl⟩ := exists_body hw hshared hsplit
  by_cases hbody' : body' = []
  · -- this one is closed at once, so that its slash is all that is read
    exfalso
    have hstretch : (w ++ ['/', '*'] ++ r) :: rest = [w ++ '/' :: '*' :: '*' :: '/' :: ws] := by
      rw [← Text.lines_joinLines (List.cons_ne_nil _ _) hlines, e, hbody',
        Text.lines_of_newline_not_mem (by simp [hwline, hline])]
      simp
    rw [hstretch, List.map_singleton, blockText_bare hw hws] at htext
    have hstar := star_mem_bodyText hw hwline above
    rw [← hbody', ← htext] at hstar
    exact absurd hstar (by decide)
  · refine ⟨body', hbody', fun hi => hclosed (hi.trans ?_), w, ws, hw, hwline, hws, hline, ?_⟩
    · exact ⟨above ++ '\n' :: (w ++ ['/', '*']), [], by simp⟩
    · rw [e]
      simp

/-- Lines that are a comment end with it. -/
theorem IsBlockComment.endsWithComment (h : IsBlockComment stretch body) (hne : stretch ≠ [])
    (pre : List Text) : EndsWithComment (pre ++ stretch) body := by
  obtain ⟨-, hclosed, w, ws, -, -, hws, hline, e⟩ := h
  refine ⟨hclosed, ?_⟩
  by_cases hpre : pre = []
  · exact ⟨w, ws, hws, hline, by rw [hpre, List.nil_append, e]⟩
  · refine ⟨Text.joinLines pre ++ '\n' :: w, ws, hws, hline, ?_⟩
    rw [Text.joinLines_append hpre hne, e, List.append_assoc, List.cons_append]

end Document
end SuiteAudit
