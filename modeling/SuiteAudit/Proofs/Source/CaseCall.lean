import SuiteAudit.Proofs.Pattern.Scan
import SuiteAudit.Proofs.Text.Blanks
import SuiteAudit.Proofs.Text.Infix
import SuiteAudit.Source.Block

/-! # Calls that open a test case

The pattern of `Opening.case` takes, where no word goes on before it, one of ten heads such as
`test(` or `it.only(`, blanks, and a title between two equal marks that holds neither this mark nor
a line feed (`matchAt_case_iff`). -/

namespace SuiteAudit
namespace Opening

/-- The marks around a title. -/
def isTitleMark (c : Char) : Bool := Pattern.among quoteMarks c

def caseModifiers : List Text := [".only", ".skip", ".fixme", ".slow"]

/-- What a call begins with, up to its parenthesis. -/
def caseHeads : List Text :=
  (["test", "it"] : List Text).flatMap fun word => ([] :: caseModifiers).map fun m => word ++ m ++ "("

/-- A call that opens a test case with a title between two marks `q`. -/
structure IsCall (q : Char) (title k : Text) : Prop where
  mark : isTitleMark q = true
  fresh : q ∉ title
  line : '\n' ∉ title
  form : ∃ head ws, head ∈ caseHeads ∧ (∀ c ∈ ws, Text.isBlank c = true) ∧
    k = head ++ (ws ++ q :: (title ++ [q]))

def callHit (offset : Nat) (q : Char) (title k : Text) : Hit := ⟨offset, k, [(2, title), (1, [q])]⟩

@[simp] theorem callHit_text (o : Nat) (q : Char) (title k : Text) :
    (callHit o q title k).text = k := rfl

theorem isTitleMark_iff {c : Char} : isTitleMark c = true ↔ c = '\'' ∨ c = '"' ∨ c = '\x60' := by
  simp [isTitleMark, Pattern.among, quoteMarks]

theorem head?_titleMark {q : Char} (hq : isTitleMark q = true) (t : Text) :
    (q :: t).head?.any Text.isBlank = false := by
  have : Text.isBlank q = false := by
    rcases isTitleMark_iff.mp hq with rfl | rfl | rfl <;> decide
  exact this

theorem caseHeads_prefixFree : ∀ h ∈ caseHeads, ∀ h' ∈ caseHeads, h <+: h' → h = h' := by
  decide

/-- A head is known by any text that begins with it. -/
theorem caseHeads_inj {h h' r r' : Text} (hh : h ∈ caseHeads) (hh' : h' ∈ caseHeads)
    (e : h ++ r = h' ++ r') : h = h' ∧ r = r' := by
  have hp : h <+: h' ∨ h' <+: h :=
    List.prefix_or_prefix_of_prefix (List.prefix_append h r) (e ▸ List.prefix_append h' r')
  have heq : h = h' := by
    rcases hp with hp | hp
    · exact caseHeads_prefixFree h hh h' hh' hp
    · exact (caseHeads_prefixFree h' hh' h hh hp).symm
  subst heq
  exact ⟨rfl, List.append_cancel_left e⟩

/-- A call is known by any text that begins with it. -/
theorem IsCall.inj {q q' : Char} {title title' k k' r r' : Text} (h : IsCall q title k)
    (h' : IsCall q' title' k') (e : k ++ r = k' ++ r') : q = q' ∧ title = title' ∧ k = k' := by
  obtain ⟨hq, hf, -, head, ws, hhead, hws, rfl⟩ := h
  obtain ⟨hq', hf', -, head', ws', hhead', hws', rfl⟩ := h'
  simp only [List.append_assoc, List.cons_append] at e
  obtain ⟨rfl, e₁⟩ := caseHeads_inj hhead hhead' e
  obtain ⟨rfl, e₂⟩ := Text.run_append_inj hws hws' (head?_titleMark hq _) (head?_titleMark hq' _) e₁
  obtain ⟨rfl, e₃⟩ := List.cons.inj e₂
  have hrun : ∀ {s : Text}, q ∉ s → ∀ c ∈ s, (c != q) = true := fun hs c hc => by
    rw [bne_iff_ne]
    rintro rfl
    exact hs hc
  have hstop : ∀ s : Text, (q :: s).head?.any (fun c => c != q) = false := fun s => by simp
  obtain ⟨rfl, -⟩ := Text.run_append_inj (hrun hf) (hrun hf') (hstop r) (hstop r') (by simpa using e₃)
  exact ⟨rfl, rfl, rfl⟩

/-! ### What the pattern takes -/

theorem exists_of_optional {p : Pattern} {place : Place} {g g' : Groups} {s : Text}
    (h : (Pattern.optional p).Takes place g s g') : p.Takes place g s g' ∨ s = [] ∧ g' = g := h

/-- Some words as a pattern take one of them that stands at the place. -/
theorem words_takes_iff {place : Place} {g g' : Groups} {s : Text} : ∀ {ts : List Text},
    (Pattern.words ts).Takes place g s g' ↔ s ∈ ts ∧ s <+: place.rest ∧ g' = g
  | [] => ⟨fun h => (by cases h.1), fun h => (by cases h.1)⟩
  | [t] => by
      constructor
      · rintro ⟨hp, rfl, rfl⟩
        exact ⟨List.mem_cons_self, hp, rfl⟩
      · rintro ⟨hs, hp, rfl⟩
        obtain rfl := List.mem_singleton.mp hs
        exact ⟨hp, rfl, rfl⟩
  | t :: u :: ts => by
      have ih : (Pattern.words (u :: ts)).Takes place g s g' ↔ _ := words_takes_iff
      constructor
      · rintro (⟨hp, rfl, rfl⟩ | h)
        · exact ⟨List.mem_cons_self, hp, rfl⟩
        · obtain ⟨hs, hp, hg⟩ := ih.mp h
          exact ⟨List.mem_cons_of_mem t hs, hp, hg⟩
      · rintro ⟨hs, hp, rfl⟩
        rcases List.mem_cons.mp hs with rfl | hs
        · exact Or.inl ⟨hp, rfl, rfl⟩
        · exact Or.inr (ih.mpr ⟨hs, hp, rfl⟩)

/-- The end of the pattern takes a title up to the first mark that closes it, if the rest of the
pattern goes on from there. -/
theorem tryAt_title_of_rest {α : Type} {place : Place} {g : Groups} {q : Char} {title r : Text}
    {rest : Place → Groups → Option α} {stretch : Stretch} {x : α} (hg : g.lookup 1 = some stretch)
    (hs : stretch.text = [q]) (hline : '\n' ∉ title) (hfresh : q ∉ title)
    (e : place.rest = title ++ q :: r)
    (hx : rest (place.advance (title ++ [q])) ((2, ⟨place.rest, title.length⟩) :: g) = some x) :
    (Pattern.seq (.group nameGroup .inLineShort) (.sameAs 1)).tryAt place g rest = some x := by
  obtain ⟨before, _, offset⟩ := place
  obtain rfl : _ = title ++ q :: r := e
  -- behind a title that is cut short there is no mark
  have hstep : ∀ (a : Text) (u : Text), title ++ q :: r = a ++ u →
      (Pattern.sameAs 1).tryAt (Place.advance ⟨before, title ++ q :: r, offset⟩ a)
          ((2, ⟨title ++ q :: r, offset + a.length - offset⟩) :: g) rest =
        if [q].isPrefixOf u then
          rest (Place.advance ⟨before, title ++ q :: r, offset⟩ (a ++ [q]))
            ((2, ⟨title ++ q :: r, a.length⟩) :: g) else none := by
    intro a u hu
    have hrest : (Place.advance ⟨before, title ++ q :: r, offset⟩ a).rest = u :=
      Place.advance_rest hu
    have hlook : List.lookup 1 ((2, (⟨title ++ q :: r, offset + a.length - offset⟩ : Stretch)) :: g) =
        some stretch := hg
    rw [Pattern.tryAt, hlook]
    simp only [hs, hrest]
    rw [Place.advance_append, Nat.add_sub_cancel_left]
  refine Pattern.lazyRun_eq _ _ title (q :: r) before offset ?_ ?_ ?_
  · intro c hc
    rw [Pattern.isNotLineFeed, bne_iff_ne]
    rintro rfl
    exact hline hc
  · intro a c u ha
    refine (hstep a (c :: (u ++ q :: r)) (by rw [ha]; simp)).trans ?_
    rw [if_neg]
    rw [List.isPrefixOf_iff_prefix]
    intro hp
    obtain ⟨rfl, -⟩ := List.cons_prefix_cons.mp hp
    exact hfresh (by rw [ha]; simp)
  · refine (hstep title (q :: r) rfl).trans ?_
    rw [if_pos, hx]
    rw [List.isPrefixOf_iff_prefix]
    exact ⟨r, rfl⟩

theorem tryAt_title {α : Type} {place : Place} {g : Groups} {q : Char} {title r : Text}
    {rest : Place → Groups → α} {stretch : Stretch} (hg : g.lookup 1 = some stretch)
    (hs : stretch.text = [q]) (hline : '\n' ∉ title) (hfresh : q ∉ title)
    (e : place.rest = title ++ q :: r) :
    (Pattern.seq (.group nameGroup .inLineShort) (.sameAs 1)).tryAt place g
        (fun next groups => some (rest next groups)) =
      some (rest (place.advance (title ++ [q])) ((2, ⟨place.rest, title.length⟩) :: g)) :=
  tryAt_title_of_rest hg hs hline hfresh e rfl

/-- A text up to the first `q` in it. -/
theorem exists_upTo {q : Char} : ∀ (s r : Text), ∃ s' r', q ∉ s' ∧ s' <+: s ∧
    s ++ q :: r = s' ++ q :: r'
  | [], r => ⟨[], r, List.not_mem_nil, List.nil_prefix, rfl⟩
  | c :: s, r => by
      by_cases hc : c = q
      · exact ⟨[], s ++ q :: r, List.not_mem_nil, List.nil_prefix, by rw [hc]; rfl⟩
      · obtain ⟨s', r', hs, hp, e⟩ := exists_upTo s r
        refine ⟨c :: s', r', ?_, List.cons_prefix_cons.mpr ⟨rfl, hp⟩, by
          rw [List.cons_append, e, List.cons_append]⟩
        exact fun hm => (List.mem_cons.mp hm).elim (fun e => hc e.symm) hs

/-- The end of the pattern takes nothing but such a title. -/
theorem exists_of_tryAt_title {α : Type} {place : Place} {g : Groups} {q : Char}
    {rest : Place → Groups → α} {stretch : Stretch} {x : α} (hg : g.lookup 1 = some stretch)
    (hs : stretch.text = [q])
    (h : (Pattern.seq (.group nameGroup .inLineShort) (.sameAs 1)).tryAt place g
      (fun next groups => some (rest next groups)) = some x) :
    ∃ title r, q ∉ title ∧ '\n' ∉ title ∧ place.rest = title ++ q :: r ∧
      x = rest (place.advance (title ++ [q])) ((2, ⟨place.rest, title.length⟩) :: g) := by
  obtain ⟨long, t, g', e, er, ⟨g'', ⟨-, hlong, -, rfl⟩, rfl⟩, hclose⟩ :=
    Pattern.exists_of_tryAt_seq h
  obtain ⟨mark, r, -, e', -, ⟨stretch', hlook, rfl, -, rfl⟩, -⟩ := Pattern.exists_of_tryAt hclose
  obtain rfl : stretch = stretch' := Option.some.inj (hg.symm.trans hlook)
  -- some mark closes the title, so the first one that does is taken
  rw [er, hs] at e'
  obtain ⟨title, r', hfresh, hp, e''⟩ := exists_upTo (q := q) long r
  have hline : '\n' ∉ title := fun hm => by
    have := hlong _ (hp.subset hm)
    cases this
  have hrest : place.rest = title ++ q :: r' := by rw [e, e', ← e'']; rfl
  refine ⟨title, r', hfresh, hline, hrest, ?_⟩
  rw [tryAt_title hg hs hline hfresh hrest] at h
  exact (Option.some.inj h).symm

theorem dotted_mem : ∀ m ∈ (["only", "skip", "fixme", "slow"] : List Text),
    ("." : Text) ++ m ∈ caseModifiers := by
  decide

theorem head_mem : ∀ word ∈ (["test", "it"] : List Text), ∀ m ∈ [] :: caseModifiers,
    word ++ m ++ ("(" : Text) ∈ caseHeads := by
  decide

theorem words_head : ∀ word ∈ (["test", "it"] : List Text),
    word.head?.any Text.isWordChar = true := by
  decide

theorem head_cases {head : Text} (h : head ∈ caseHeads) :
    ∃ word ∈ (["test", "it"] : List Text), ∃ m ∈ [] :: caseModifiers,
      head = word ++ (m ++ ("(" : Text)) := by
  obtain ⟨word, hw, h⟩ := List.mem_flatMap.mp h
  obtain ⟨m, hm, rfl⟩ := List.mem_map.mp h
  exact ⟨word, hw, m, hm, List.append_assoc _ _ _⟩

/-- What stands between a word and its parenthesis. -/
theorem optional_takes {place : Place} {m r : Text} (hm : m ∈ [] :: caseModifiers)
    (e : place.rest = m ++ r) (g : Groups) :
    (Pattern.optional (.chain [.lit ".", .words ["only", "skip", "fixme", "slow"]])).Takes
      place g m g := by
  rcases List.mem_cons.mp hm with rfl | hm
  · exact Or.inr ⟨rfl, rfl⟩
  · have hdot : ∀ m ∈ caseModifiers, ∃ m' ∈ (["only", "skip", "fixme", "slow"] : List Text),
        m = ("." : Text) ++ m' := by
      decide
    obtain ⟨m', hm', rfl⟩ := hdot m hm
    refine Or.inl ⟨".", m', g, ⟨?_, rfl, rfl⟩, words_takes_iff.mpr ⟨hm', ?_, rfl⟩, rfl⟩
    · exact ⟨m' ++ r, by rw [e, List.append_assoc]⟩
    · exact ⟨r, (Place.advance_rest (by rw [e, List.append_assoc])).symm⟩

/-- From the parenthesis on. -/
theorem quotedName_takes {place : Place} {q : Char} {ws title r : Text}
    (hq : isTitleMark q = true) (hws : ∀ c ∈ ws, Text.isBlank c = true) (hline : '\n' ∉ title)
    (e : place.rest = ("(" : Text) ++ (ws ++ ([q] ++ (title ++ ([q] ++ r))))) :
    ∃ s groups, quotedName.Takes place [] s groups := by
  have e₁ := Place.advance_rest e
  have e₂ := Place.advance_rest e₁
  have e₃ := Place.advance_rest e₂
  have e₄ := Place.advance_rest e₃
  have hplain : ∀ c ∈ title, Pattern.isNotLineFeed c = true := by
    intro c hc
    rw [Pattern.isNotLineFeed, bne_iff_ne]
    rintro rfl
    exact hline hc
  have h₁ : (Pattern.lit "(").Takes place [] _ [] := ⟨⟨_, e.symm⟩, rfl, rfl⟩
  have h₂ : Pattern.blanks.Takes _ [] ws [] := ⟨⟨_, e₁.symm⟩, hws, Nat.zero_le _, rfl⟩
  have h₃ : (Pattern.group 1 (.one (Pattern.among quoteMarks))).Takes _ [] [q] _ :=
    ⟨[], ⟨q, _, e₂, hq, rfl, rfl⟩, rfl⟩
  have h₄ : ∀ g, (Pattern.group nameGroup .inLineShort).Takes _ g title _ := fun g =>
    ⟨g, ⟨⟨_, e₃.symm⟩, hplain, Nat.zero_le _, rfl⟩, rfl⟩
  refine ⟨_, _, Pattern.takes_seq h₁ (Pattern.takes_seq h₂ (Pattern.takes_seq h₃
    (Pattern.takes_seq (h₄ _) ⟨_, rfl, ?_, ⟨r, e₄.symm⟩, rfl⟩)))⟩
  rw [Stretch.text, e₂]
  rfl

theorem case_takes {b : Option Char} {q : Char} {title k : Text} (hk : IsCall q title k)
    (hb : b.any Text.isWordChar = false) (r : Text) (o : Nat) :
    ∃ s groups, case.pattern.Takes ⟨b, k ++ r, o⟩ [] s groups := by
  obtain ⟨hq, -, hl, head, ws, hhead, hws, rfl⟩ := hk
  obtain ⟨word, hw, m, hm, rfl⟩ := head_cases hhead
  let place : Place :=
    ⟨b, word ++ (m ++ (("(" : Text) ++ (ws ++ ([q] ++ (title ++ ([q] ++ r)))))), o⟩
  have hplace : (⟨b, word ++ (m ++ ("(" : Text)) ++ (ws ++ q :: (title ++ [q])) ++ r, o⟩ : Place) =
      place := by
    simp [place]
  have hedge : Pattern.wordEdge.Takes place [] [] [] := by
    refine ⟨?_, rfl, rfl⟩
    have : word.head?.any Text.isWordChar = true := words_head word hw
    cases word with
    | nil => cases this
    | cons c word =>
        simp only [List.head?_cons, Option.any_some] at this
        simp [place, hb, this]
  have e₁ : (place.advance word).rest = m ++ _ := Place.advance_rest rfl
  obtain ⟨s, g, hname⟩ := quotedName_takes hq hws hl (Place.advance_rest e₁)
  have hword := Pattern.takes_seq (words_takes_iff.mpr ⟨hw, ⟨_, rfl⟩, rfl⟩)
    (Pattern.takes_seq (optional_takes hm e₁ []) hname)
  rw [← Place.advance_nil place] at hword
  rw [hplace]
  exact ⟨_, g, Pattern.takes_seq hedge hword⟩

/-- The pattern takes a call, and no word goes on before it. -/
theorem exists_of_case_matchAt {b : Option Char} {t : Text} {o : Nat} {h : Hit}
    (hm : case.pattern.matchAt ⟨b, t, o⟩ = some h) :
    b.any Text.isWordChar = false ∧
      ∃ q title k r, IsCall q title k ∧ t = k ++ r ∧ h = callHit o q title k := by
  obtain ⟨s₀, t₀, g₀, e₀, er₀, ⟨hedge, rfl, rfl⟩, hm⟩ := Pattern.exists_of_tryAt_seq hm
  obtain ⟨word, t₁, g₁, e₁, er₁, hword, hm⟩ := Pattern.exists_of_tryAt_seq hm
  obtain ⟨hword, -, rfl⟩ := words_takes_iff.mp hword
  obtain ⟨modifier, t₂, g₂, e₂, er₂, hmod, hm⟩ := Pattern.exists_of_tryAt_seq hm
  have hmod : modifier ∈ [] :: caseModifiers ∧ g₂ = [] := by
    rcases exists_of_optional hmod with ⟨d, m, g, ⟨-, rfl, rfl⟩, hm', rfl⟩ | ⟨rfl, rfl⟩
    · obtain ⟨hmem, -, rfl⟩ := words_takes_iff.mp hm'
      exact ⟨List.mem_cons_of_mem _ (dotted_mem m hmem), rfl⟩
    · exact ⟨List.mem_cons_self, rfl⟩
  obtain ⟨hmod, rfl⟩ := hmod
  obtain ⟨paren, t₃, g₃, e₃, er₃, ⟨-, rfl, rfl⟩, hm⟩ := Pattern.exists_of_tryAt_seq hm
  obtain ⟨ws, t₄, g₄, e₄, er₄, ⟨-, hws, -, rfl⟩, hm⟩ := Pattern.exists_of_tryAt_seq hm
  obtain ⟨mark, t₅, g₅, e₅, er₅, ⟨g₆, ⟨q, t₆, e₆, hq, rfl, rfl⟩, rfl⟩, hm⟩ :=
    Pattern.exists_of_tryAt_seq hm
  obtain rfl : t = t₀ := e₀
  obtain rfl : t = word ++ t₁ := er₀.symm.trans e₁
  obtain rfl : t₁ = modifier ++ t₂ := er₁.symm.trans e₂
  obtain rfl : t₂ = ("(" : Text) ++ t₃ := er₂.symm.trans e₃
  obtain rfl : t₃ = ws ++ t₄ := er₃.symm.trans e₄
  obtain rfl : t₄ = [q] ++ t₅ := er₄.symm.trans e₅
  obtain ⟨title, r, hfresh, hline, e, rfl⟩ := exists_of_tryAt_title (q := q) rfl (by
    rw [er₄]; rfl) hm
  obtain rfl : t₅ = title ++ q :: r := er₅.symm.trans e
  refine ⟨?_, q, title, word ++ modifier ++ ("(" : Text) ++ (ws ++ q :: (title ++ [q])), r,
    ⟨hq, hfresh, hline, _, ws, head_mem word (by assumption) modifier (by assumption), hws, rfl⟩,
    by simp, ?_⟩
  · have hhead : ∀ u : Text, (word ++ u).head?.any Text.isWordChar = true := by
      intro u
      have : word.head?.any Text.isWordChar = true := words_head word (by assumption)
      cases word with
      | nil => cases this
      | cons c word => exact this
    simp only [hhead, bne_iff_ne, ne_eq, Bool.not_eq_true] at hedge
    exact hedge
  · have htake : ∀ u : Text, (u ++ r).take (o + u.length - o) = u := by
      intro u
      rw [Nat.add_sub_cancel_left, List.take_left]
    have := htake (word ++ modifier ++ ("(" : Text) ++ (ws ++ q :: (title ++ [q])))
    rw [callHit, Hit.mk.injEq]
    refine ⟨rfl, ?_, by simp [Stretch.text, Place.advance]⟩
    simp only [← Place.advance_append, Place.advance_offset]
    simp only [List.append_assoc, List.cons_append, List.nil_append] at this ⊢
    exact this

/-- The pattern takes a call where no word goes on before it, and nothing else. -/
theorem matchAt_case_iff {b : Option Char} {t : Text} {o : Nat} {h : Hit} :
    case.pattern.matchAt ⟨b, t, o⟩ = some h ↔ b.any Text.isWordChar = false ∧
      ∃ q title k r, IsCall q title k ∧ t = k ++ r ∧ h = callHit o q title k := by
  constructor
  · exact exists_of_case_matchAt
  · rintro ⟨hb, q, title, k, r, hk, rfl, rfl⟩
    obtain ⟨h, hm⟩ := Option.isSome_iff_exists.mp
      (Pattern.isSome_matchAt_iff.mpr (case_takes hk hb r o))
    obtain ⟨-, q', title', k', r', hk', e, rfl⟩ := exists_of_case_matchAt hm
    obtain ⟨rfl, rfl, rfl⟩ := hk.inj hk' e
    exact hm

theorem IsCall.exists_cons {q : Char} {title k : Text} (h : IsCall q title k) :
    ∃ c s, k = c :: s ∧ Text.isWordChar c = true := by
  obtain ⟨-, -, -, head, ws, hhead, -, rfl⟩ := h
  obtain ⟨word, hw, m, -, rfl⟩ := head_cases hhead
  have := words_head word hw
  cases word with
  | nil => cases this
  | cons c word => exact ⟨c, _, rfl, this⟩

theorem IsCall.ne_nil {q : Char} {title k : Text} (h : IsCall q title k) : k ≠ [] := by
  obtain ⟨c, s, rfl, -⟩ := h.exists_cons
  exact List.cons_ne_nil c s

theorem case_advances : case.pattern.Advances := by
  rintro ⟨b, t, o⟩ h hm
  obtain ⟨-, q, title, k, r, hk, -, rfl⟩ := matchAt_case_iff.mp hm
  exact hk.ne_nil

end Opening
end SuiteAudit
