import SuiteAudit.Proofs.Source.CaseCall
import SuiteAudit.Proofs.Text.Lines

/-! # Reading the calls of a text

`Opening.Reads w t calls` reads the calls of a text from left to right, where `w` says whether a
word goes on before it: a character is passed over where no call opens, a call is taken as a whole.
It reads what the pattern finds (`Reads.findAllFrom`, `Reads.findAll`), and a line feed that no call
goes over cuts the reading in two (`Reads.append_newline`).  A stretch within which no call opens is
passed over as a whole (`Reads.pass_append`). -/

namespace SuiteAudit
namespace Opening

/-- A text begins with a call. -/
def OpensCall (t : Text) : Prop := ∃ q title k, IsCall q title k ∧ k <+: t

theorem OpensCall.mono {s t : Text} (h : OpensCall s) (hp : s <+: t) : OpensCall t := by
  obtain ⟨q, title, k, hk, hs⟩ := h
  exact ⟨q, title, k, hk, hs.trans hp⟩

theorem OpensCall.exists_cons {t : Text} (h : OpensCall t) :
    ∃ c s, t = c :: s ∧ Text.isWordChar c = true := by
  obtain ⟨q, title, k, hk, r, rfl⟩ := h
  obtain ⟨c, s, rfl, hc⟩ := hk.exists_cons
  exact ⟨c, s ++ r, rfl, hc⟩

theorem not_opensCall_cons {c : Char} (hc : Text.isWordChar c = false) (t : Text) :
    ¬ OpensCall (c :: t) := by
  intro h
  obtain ⟨d, s, e, hd⟩ := h.exists_cons
  obtain ⟨rfl, -⟩ := List.cons.inj e
  rw [hc] at hd
  cases hd

theorem not_isWordChar_newline : Text.isWordChar '\n' = false := by decide

/-- The calls of a text, each with its mark and its title, where `w` says whether a word goes on
before the text. -/
inductive Reads : Bool → Text → List (Char × Text × Text) → Prop
  | nil {w : Bool} : Reads w [] []
  | pass {w : Bool} {c : Char} {t : Text} {calls : List (Char × Text × Text)} :
      (w = false → ¬ OpensCall (c :: t)) → Reads (Text.isWordChar c) t calls → Reads w (c :: t) calls
  | call {q : Char} {title k t : Text} {calls : List (Char × Text × Text)} :
      IsCall q title k → Reads false t calls → Reads false (k ++ t) ((q, title, k) :: calls)

/-- What a hit of a call holds. -/
def callContent (call : Char × Text × Text) : Text × List (Nat × Text) :=
  (call.2.2, [(2, call.2.1), (1, [call.1])])

theorem not_isWordChar_mark {q : Char} (hq : isTitleMark q = true) : Text.isWordChar q = false := by
  rcases isTitleMark_iff.mp hq with rfl | rfl | rfl <;> decide

/-- A call ends with its mark. -/
theorem IsCall.getLast? {q : Char} {title k : Text} (h : IsCall q title k) :
    k.getLast? = some q := by
  obtain ⟨-, -, -, head, ws, -, -, rfl⟩ := h
  have e : head ++ (ws ++ q :: (title ++ [q])) = head ++ (ws ++ (q :: title)) ++ [q] := by simp
  rw [e, List.getLast?_concat]

/-- Whether a word goes on behind a text, where `w` says so for an empty one. -/
def wordAfter (w : Bool) (s : Text) : Bool := (s.getLast?.map Text.isWordChar).getD w

@[simp] theorem wordAfter_nil (w : Bool) : wordAfter w [] = w := rfl

theorem wordAfter_append (w : Bool) (s t : Text) :
    wordAfter w (s ++ t) = wordAfter (wordAfter w s) t := by
  unfold wordAfter
  rw [List.getLast?_append]
  cases t.getLast? <;> rfl

theorem wordAfter_cons (w : Bool) (c : Char) (s : Text) :
    wordAfter w (c :: s) = wordAfter (Text.isWordChar c) s :=
  wordAfter_append w [c] s

theorem IsCall.wordAfter {q : Char} {title k : Text} (h : IsCall q title k) (w : Bool) :
    wordAfter w k = false := by
  rw [Opening.wordAfter, h.getLast?]
  exact not_isWordChar_mark h.mark

/-! ### Calls over a line feed -/

theorem not_mem_head {c : Char} (h : caseHeads.all (fun head => !head.elem c) = true) {head : Text}
    (hh : head ∈ caseHeads) : c ∉ head := by
  have := List.all_eq_true.mp h head hh
  simpa using this

theorem paren_mem_of_mem_head : ∀ {head : Text}, head ∈ caseHeads → '(' ∈ head := by
  decide

theorem getLast?_of_mem_head : ∀ {head : Text}, head ∈ caseHeads → head.getLast? = some '(' := by
  decide

theorem IsCall.paren_mem {q : Char} {title k : Text} (h : IsCall q title k) : '(' ∈ k := by
  obtain ⟨-, -, -, head, ws, hhead, -, rfl⟩ := h
  exact List.mem_append_left _ (paren_mem_of_mem_head hhead)

theorem not_mark_of_mem_head {head : Text} (hh : head ∈ caseHeads) {c : Char} (hc : c ∈ head) :
    isTitleMark c = false := by
  have h : ∀ head ∈ caseHeads, (head.all fun c => !isTitleMark c) = true := by decide
  simpa using List.all_eq_true.mp (h head hh) c hc

theorem not_mark_of_isBlank {c : Char} (hc : Text.isBlank c = true) : isTitleMark c = false := by
  refine Bool.eq_false_iff.mpr fun hm => ?_
  have := head?_titleMark hm []
  rw [List.head?_cons, Option.any_some, hc] at this
  cases this

/-- A text ends within a call, before its title. -/
def EndsOpen (w : Bool) (a : Text) : Prop :=
  ∃ a' head ws, a = a' ++ (head ++ ws) ∧ wordAfter w a' = false ∧ head ∈ caseHeads ∧
    ∀ c ∈ ws, Text.isBlank c = true

/-- A text begins with a title, perhaps behind blanks. -/
def Titled (b : Text) : Prop :=
  ∃ ws q title r, b = ws ++ q :: (title ++ q :: r) ∧ (∀ c ∈ ws, Text.isBlank c = true) ∧
    isTitleMark q = true ∧ q ∉ title ∧ '\n' ∉ title

/-- A line feed within a call stands among the blanks before its title. -/
theorem IsCall.split {q : Char} {title x y : Text} (h : IsCall q title (x ++ '\n' :: y)) :
    ∃ head ws ws', x = head ++ ws ∧ y = ws' ++ q :: (title ++ [q]) ∧ head ∈ caseHeads ∧
      (∀ c ∈ ws, Text.isBlank c = true) ∧ ∀ c ∈ ws', Text.isBlank c = true := by
  obtain ⟨hq, -, hl, head, ws, hhead, hws, e⟩ := h
  obtain ⟨u, rfl, e₁⟩ := Text.exists_of_append_eq (not_mem_head (by decide) hhead) e.symm
  have hrest : '\n' ∉ q :: (title ++ [q]) := by
    have hne : '\n' ≠ q := by
      rintro rfl
      cases hq
    simpa [hne] using hl
  obtain ⟨v, rfl, rfl⟩ := Text.exists_of_append_eq' hrest e₁
  exact ⟨head, u, v, rfl, rfl, hhead, fun c hc => hws c (List.mem_append_left _ hc),
    fun c hc => hws c (List.mem_append_right u (List.mem_cons_of_mem _ hc))⟩

/-- A call within a line does not reach into one that goes over a line feed. -/
theorem IsCall.append_ne {q₁ q : Char} {title₁ title a m k : Text} (h₁ : IsCall q₁ title₁ (a ++ m))
    (hm : m ≠ []) (hn₁ : '\n' ∉ a ++ m) (h : IsCall q title k) (hn : '\n' ∈ k) (t r : Text) :
    m ++ t ≠ k ++ r := by
  intro e
  obtain ⟨x, y, rfl⟩ := List.append_of_mem hn
  obtain ⟨head, ws, -, rfl, -, hhead, hws, -⟩ := h.split
  rw [List.append_assoc (head ++ ws), List.cons_append] at e
  obtain ⟨s, es, -⟩ := Text.exists_of_append_eq (fun h => hn₁ (List.mem_append_right a h)) e
  -- it ends with a mark, which would stand before the title of the other one
  have hlast := h₁.getLast?
  rw [List.getLast?_append, List.getLast?_eq_some_getLast hm, Option.some_or] at hlast
  have hq : q₁ ∈ head ++ ws := by
    rw [es, ← Option.some.inj hlast]
    exact List.mem_append_left s (List.getLast_mem hm)
  have hmark : isTitleMark q₁ = false := by
    rcases List.mem_append.mp hq with hq | hq
    · exact not_mark_of_mem_head hhead hq
    · exact not_mark_of_isBlank (hws q₁ hq)
  rw [h₁.mark] at hmark
  cases hmark

namespace Reads

variable {w : Bool} {t : Text} {calls : List (Char × Text × Text)}

/-- The pattern finds the calls that are read. -/
theorem findAllFrom (h : Reads w t calls) : ∀ (b : Option Char) (o : Nat),
    b.any Text.isWordChar = w →
      (case.pattern.findAllFrom 0 b o t).map Hit.content = calls.map callContent := by
  induction h with
  | nil => exact fun b o _ => rfl
  | @pass w c t calls hn _ ih =>
      intro b o hb
      rw [Pattern.findAllFrom_miss, ih _ _ rfl]
      refine Option.eq_none_iff_forall_ne_some.mpr fun hit hm => ?_
      obtain ⟨hb', q, title, k, r, hk, e, -⟩ := matchAt_case_iff.mp hm
      exact hn (hb.symm.trans hb') ⟨q, title, k, hk, r, e.symm⟩
  | @call q title k t calls hk _ ih =>
      intro b o hb
      have hm : case.pattern.matchAt ⟨b, k ++ t, o⟩ = some (callHit o q title k) :=
        matchAt_case_iff.mpr ⟨hb, q, title, k, t, hk, rfl, rfl⟩
      have := Pattern.findAllFrom_hit (h := callHit o q title k) hk.ne_nil hm
      rw [callHit_text] at this
      rw [this, List.map_cons, ih _ _ ?_]
      · rfl
      · rw [hk.getLast?]
        exact not_isWordChar_mark hk.mark

theorem findAll (h : Reads false t calls) :
    (case.pattern.findAll t).map Hit.content = calls.map callContent := h.findAllFrom none 0 rfl

/-- Every text is read. -/
theorem exists_calls (w : Bool) (t : Text) : ∃ calls, Reads w t calls := by
  match t with
  | [] => exact ⟨[], nil⟩
  | c :: t =>
      by_cases h : w = false ∧ OpensCall (c :: t)
      · obtain ⟨rfl, q, title, k, hk, r, e⟩ := h
        have hlt : r.length < (c :: t).length := by
          have := List.length_pos_iff.mpr hk.ne_nil
          rw [← e, List.length_append]
          omega
        obtain ⟨calls, hr⟩ := exists_calls false r
        rw [← e]
        exact ⟨_, hr.call hk⟩
      · obtain ⟨calls, hr⟩ := exists_calls (Text.isWordChar c) t
        exact ⟨calls, hr.pass fun hw ho => h ⟨hw, ho⟩⟩
termination_by t.length
decreasing_by
  · exact hlt
  · exact Nat.lt_succ_self _

theorem callContent_inj {c d : Char × Text × Text} (h : callContent c = callContent d) : c = d := by
  obtain ⟨q, title, k⟩ := c
  obtain ⟨q', title', k'⟩ := d
  simp only [callContent, Prod.mk.injEq, List.cons.injEq, and_true, true_and] at h
  obtain ⟨rfl, rfl, rfl⟩ := h
  rfl

theorem unique {calls' : List (Char × Text × Text)} (h : Reads false t calls)
    (h' : Reads false t calls') : calls = calls' :=
  (List.map_inj_right fun _ _ => callContent_inj).mp (h.findAll.symm.trans h'.findAll)

theorem eq_nil (h : Reads w [] calls) : calls = [] := by
  generalize ht : ([] : Text) = t at h
  cases h with
  | nil => rfl
  | pass => cases ht
  | call hk => exact absurd (List.append_eq_nil_iff.mp ht.symm).1 hk.ne_nil

/-- A line feed that no call goes over cuts the reading. -/
theorem append_newline {b : Text} {more : List (Char × Text × Text)} (h : Reads w t calls)
    (hb : Reads false b more) : (EndsOpen w t → ¬ Titled b) →
      Reads w (t ++ '\n' :: b) (calls ++ more) := by
  induction h with
  | nil => exact fun _ => pass (fun _ => not_opensCall_cons not_isWordChar_newline b) hb
  | @pass w c t calls hn _ ih =>
      intro hopen
      refine pass (fun hw ho => ?_) (ih fun ⟨a', head, ws, e, he, hm⟩ => hopen ?_)
      · obtain ⟨q, title, k, hk, hp⟩ := ho
        have hp : k <+: (c :: t) ++ '\n' :: b := hp
        rcases Text.prefix_append hp with hp | ⟨s, hs, rfl, hsb⟩
        · exact hn hw ⟨q, title, k, hk, hp⟩
        · cases s with
          | nil => exact hs rfl
          | cons d s =>
              obtain ⟨rfl, r, rfl⟩ := List.cons_prefix_cons.mp hsb
              obtain ⟨head, ws, ws', e, rfl, hhead, hws, hws'⟩ := hk.split
              refine hopen ⟨[], head, ws, e, hw, hhead, hws⟩
                ⟨ws', q, title, r, by simp, hws', hk.mark, hk.fresh, hk.line⟩
      · exact ⟨c :: a', head, ws, by rw [e]; rfl, by rw [wordAfter_cons]; exact he, hm⟩
  | @call q title k t calls hk _ ih =>
      intro hopen
      rw [List.append_assoc]
      refine call hk (ih fun ⟨a', head, ws, e, he, hm⟩ => hopen ?_)
      refine ⟨k ++ a', head, ws, by rw [e, List.append_assoc], ?_, hm⟩
      rw [wordAfter_append, hk.wordAfter]
      exact he

/-- Where a call with a line feed stands, a call with a line feed is read. -/
theorem exists_newline {q : Char} {title k : Text} (hk : IsCall q title k) (hn : '\n' ∈ k)
    (h : Reads w t calls) : ∀ {a r : Text}, t = a ++ (k ++ r) → wordAfter w a = false →
      ∃ c ∈ calls, '\n' ∈ c.2.2 := by
  induction h with
  | nil =>
      intro a r e _
      have := (List.append_eq_nil_iff.mp e.symm).2
      exact absurd (List.append_eq_nil_iff.mp this).1 hk.ne_nil
  | @pass w c t calls hno _ ih =>
      intro a r e hw
      cases a with
      | nil => exact absurd ⟨q, title, k, hk, r, e.symm⟩ (hno hw)
      | cons d a =>
          obtain ⟨rfl, rfl⟩ := List.cons.inj e
          rw [wordAfter_cons] at hw
          exact ih rfl hw
  | @call q₁ title₁ k₁ t calls hk₁ _ ih =>
      intro a r e hw
      by_cases hn₁ : '\n' ∈ k₁
      · exact ⟨_, List.mem_cons_self, hn₁⟩
      have hrest : ∀ a', a = k₁ ++ a' → t = a' ++ (k ++ r) →
          ∃ c ∈ (q₁, title₁, k₁) :: calls, '\n' ∈ c.2.2 := by
        intro a' ea et
        rw [ea, wordAfter_append, hk₁.wordAfter] at hw
        obtain ⟨c, hc, hcn⟩ := ih et hw
        exact ⟨c, List.mem_cons_of_mem _ hc, hcn⟩
      obtain ⟨a', ea, et⟩ | ⟨m, rfl, et⟩ := List.append_eq_append_iff.mp e
      · exact hrest a' ea et
      by_cases hm : m = []
      · subst hm
        exact hrest [] (by simp) (by simpa using et.symm)
      · exact absurd et.symm (hk₁.append_ne hm hn₁ hk hn t r)

/-- When no call goes over a line feed, none is cut by one. -/
theorem not_titled {a b : Text} (h : Reads w (a ++ '\n' :: b) calls)
    (hcalls : ∀ c ∈ calls, '\n' ∉ c.2.2) (ha : EndsOpen w a) : ¬ Titled b := by
  obtain ⟨a', head, ws, rfl, hw, hhead, hws⟩ := ha
  rintro ⟨ws', q, title, r, rfl, hws', hq, hf, hl⟩
  have hk : IsCall q title (head ++ ((ws ++ '\n' :: ws') ++ q :: (title ++ [q]))) := by
    refine ⟨hq, hf, hl, head, _, hhead, fun c hc => ?_, rfl⟩
    rcases List.mem_append.mp hc with hc | hc
    · exact hws c hc
    · rcases List.mem_cons.mp hc with rfl | hc
      · decide
      · exact hws' c hc
  obtain ⟨c, hc, hn⟩ := h.exists_newline hk (by simp) (a := a') (r := r) (by simp) hw
  exact hcalls c hc hn

end Reads

/-! ### Stretches without calls -/

/-- No call opens within `s`, when `t` follows it. -/
def Passes : Bool → Text → Text → Prop
  | _, [], _ => True
  | w, c :: s, t => (w = false → ¬ OpensCall (c :: (s ++ t))) ∧ Passes (Text.isWordChar c) s t

theorem passes_append : ∀ {s s' t : Text} {w : Bool},
    Passes w (s ++ s') t ↔ Passes w s (s' ++ t) ∧ Passes (wordAfter w s) s' t
  | [], s', t, w => by simp [Passes]
  | c :: s, s', t, w => by
      rw [List.cons_append, Passes, Passes, passes_append, wordAfter_cons, List.append_assoc,
        and_assoc]

theorem Passes.mono : ∀ {s t u : Text} {w : Bool}, Passes w s t → u <+: t → Passes w s u
  | [], _, _, _, _, _ => trivial
  | c :: s, _, _, _, h, hp => by
      obtain ⟨hn, h⟩ := h
      refine ⟨fun hw ho => hn hw (ho.mono ?_), h.mono hp⟩
      exact (List.prefix_append_right_inj (c :: s)).mpr hp

theorem Reads.pass_append {t : Text} {calls : List (Char × Text × Text)} :
    ∀ {s : Text} {w : Bool}, Passes w s t → Reads (wordAfter w s) t calls → Reads w (s ++ t) calls
  | [], _, _, h => h
  | c :: s, w, hp, h => by
      rw [wordAfter_cons] at h
      exact .pass hp.1 (Reads.pass_append hp.2 h)

end Opening
end SuiteAudit
