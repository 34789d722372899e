import SuiteAudit.Proofs.Literal.LongText
import SuiteAudit.Proofs.Text.Blanks
import SuiteAudit.Proofs.Text.Infix
import SuiteAudit.Proofs.Text.Lines
import SuiteAudit.Source.Literal

/-! # Fixed waits

The pattern `Literal.timeoutCall` takes a call with one numeral between blanks and nothing else
(`matchAt_timeoutCall_iff`).  Two such calls never overlap, since each begins with the only `w` that
it holds (`IsWait.exists_cons`).

Lines that are put between others make no new wait out of what stands before and behind them, when
the first of them that is not blank begins with a slash and none of them leaves a parenthesis open
at its end: a wait then stands in one of the new lines or stood in the text before
(`IsWait.of_insert`). -/

namespace SuiteAudit
namespace Literal

/-- What a fixed wait begins with. -/
def waitStart : Text := "waitForTimeout("

/-- The rest of it behind its only `w`. -/
def waitTail : Text := "aitForTimeout("

/-- A call that waits for the time `d`. -/
structure IsWait (d w : Text) : Prop where
  digits : ∀ c ∈ d, Text.isDigit c = true
  nonempty : d ≠ []
  form : ∃ b₁ b₂, (∀ c ∈ b₁, Text.isBlank c = true) ∧ (∀ c ∈ b₂, Text.isBlank c = true) ∧
    w = waitStart ++ (b₁ ++ (d ++ (b₂ ++ [')'])))

def waitHit (offset : Nat) (d w : Text) : Hit := ⟨offset, w, [(1, d)]⟩

@[simp] theorem waitHit_text (o : Nat) (d w : Text) : (waitHit o d w).text = w := rfl
@[simp] theorem waitHit_value (o : Nat) (d w : Text) : (waitHit o d w).group 1 = d := rfl

theorem head?_digits {d t : Text} (hd : ∀ c ∈ d, Text.isDigit c = true) (hn : d ≠ []) :
    (d ++ t).head?.any Text.isBlank = false := by
  cases d with
  | nil => exact absurd rfl hn
  | cons c d => exact Text.not_isBlank_of_isDigit (hd c List.mem_cons_self)

theorem head?_blanks {b t : Text} (hb : ∀ c ∈ b, Text.isBlank c = true) :
    (b ++ ')' :: t).head?.any Text.isDigit = false := by
  cases b with
  | nil => exact (by decide +kernel : Text.isDigit ')' = false)
  | cons c b => exact Text.not_isDigit_of_isBlank (hb c List.mem_cons_self)

/-- A wait is known by any text that begins with it. -/
theorem IsWait.inj {d d' w w' r r' : Text} (h : IsWait d w) (h' : IsWait d' w')
    (e : w ++ r = w' ++ r') : d = d' ∧ w = w' ∧ r = r' := by
  obtain ⟨hd, hn, b₁, b₂, hb₁, hb₂, rfl⟩ := h
  obtain ⟨hd', hn', c₁, c₂, hc₁, hc₂, rfl⟩ := h'
  simp only [List.append_assoc, List.append_cancel_left_eq, List.cons_append,
    List.nil_append] at e
  obtain ⟨rfl, e₁⟩ := Text.run_append_inj hb₁ hc₁ (head?_digits hd hn) (head?_digits hd' hn') e
  obtain ⟨rfl, e₂⟩ := Text.run_append_inj hd hd' (head?_blanks hb₂) (head?_blanks hc₂) e₁
  have hp : ∀ t : Text, (')' :: t).head?.any Text.isBlank = false :=
    fun t => (by decide : Text.isBlank ')' = false)
  obtain ⟨rfl, e₃⟩ := Text.run_append_inj hb₂ hc₂ (hp r) (hp r') e₂
  exact ⟨rfl, rfl, (List.cons.inj e₃).2⟩

/-- A character that is no part of the fixed texts, no blank and no digit does not occur. -/
theorem IsWait.not_mem {d w : Text} (h : IsWait d w) {c : Char} (hs : c ∉ waitStart) (hp : c ≠ ')')
    (hb : Text.isBlank c = false) (hd : Text.isDigit c = false) : c ∉ w := by
  obtain ⟨hdigits, -, b₁, b₂, hb₁, hb₂, rfl⟩ := h
  simp only [List.mem_append, List.mem_singleton, not_or]
  refine ⟨hs, fun hm => ?_, fun hm => ?_, fun hm => ?_, hp⟩
  · rw [hb₁ c hm] at hb; cases hb
  · rw [hdigits c hm] at hd; cases hd
  · rw [hb₂ c hm] at hb; cases hb

theorem IsWait.not_mem_numeral {d w : Text} (h : IsWait d w) {c : Char}
    (hc : Text.isDigit c = false) : c ∉ d := fun hm => by
  rw [h.digits c hm] at hc
  cases hc

theorem IsWait.not_mark_mem {d w : Text} (hw : IsWait d w) {c : Char} (hc : c ∈ w) :
    isMark c = false ∧ c ≠ '_' := by
  have hq : '\'' ∉ w := hw.not_mem (by decide) (by decide) (by decide) (by decide)
  have hd : '"' ∉ w := hw.not_mem (by decide) (by decide) (by decide) (by decide)
  have hu : '_' ∉ w := hw.not_mem (by decide) (by decide) (by decide) (by decide)
  refine ⟨Bool.eq_false_iff.mpr fun hm => ?_, fun e => hu (e ▸ hc)⟩
  rcases isMark_iff.mp hm with rfl | rfl
  · exact hq hc
  · exact hd hc

/-- A wait begins with the only `w` that it holds. -/
theorem IsWait.exists_cons {d w : Text} (h : IsWait d w) : ∃ s, w = 'w' :: s ∧ 'w' ∉ s := by
  obtain ⟨hdigits, -, b₁, b₂, hb₁, hb₂, rfl⟩ := h
  refine ⟨waitTail ++ (b₁ ++ (d ++ (b₂ ++ [')']))), rfl, ?_⟩
  have hb : Text.isBlank 'w' = false := by decide
  have hd : Text.isDigit 'w' = false := by decide
  simp only [List.mem_append, List.mem_singleton, not_or]
  refine ⟨by decide, fun hm => ?_, fun hm => ?_, fun hm => ?_, by decide⟩
  · rw [hb₁ _ hm] at hb; cases hb
  · rw [hdigits _ hm] at hd; cases hd
  · rw [hb₂ _ hm] at hb; cases hb

theorem IsWait.exists_concat {d w : Text} (h : IsWait d w) : ∃ s, w = s ++ [')'] := by
  obtain ⟨-, -, b₁, b₂, -, -, rfl⟩ := h
  exact ⟨waitStart ++ (b₁ ++ (d ++ b₂)), by simp⟩

theorem IsWait.start_prefix_text {d w : Text} (h : IsWait d w) : waitStart <+: w := by
  obtain ⟨-, -, b₁, b₂, -, -, rfl⟩ := h
  exact List.prefix_append _ _

/-! ### What the pattern takes -/

theorem exists_of_timeoutCall_takes {b : Option Char} {t s : Text} {o : Nat} {groups : Groups}
    (h : timeoutCall.Takes ⟨b, t, o⟩ [] s groups) :
    ∃ d r, IsWait d s ∧ t = s ++ r ∧ Pattern.hitOf ⟨b, t, o⟩ s groups = waitHit o d s := by
  obtain ⟨r, rfl⟩ := h.isPrefix
  obtain ⟨s₁, s₂, g₁, ⟨-, rfl, rfl⟩, h, rfl⟩ := h
  obtain ⟨b₁, s₃, g₂, ⟨-, hb₁, -, rfl⟩, h, rfl⟩ := h
  obtain ⟨d, s₄, g₃, ⟨g₄, ⟨-, hd, hl, rfl⟩, rfl⟩, h, rfl⟩ := h
  obtain ⟨b₂, s₅, g₅, ⟨-, hb₂, -, rfl⟩, ⟨-, rfl, rfl⟩, rfl⟩ := h
  refine ⟨d, r, ⟨hd, List.ne_nil_of_length_pos hl, b₁, b₂, hb₁, hb₂, rfl⟩, rfl, ?_⟩
  simp [Pattern.hitOf, waitHit, Stretch.text, Place.advance, List.drop_append]

theorem timeoutCall_takes {d w : Text} (h : IsWait d w) (b : Option Char) (r : Text) (o : Nat) :
    ∃ groups, timeoutCall.Takes ⟨b, w ++ r, o⟩ [] w groups := by
  obtain ⟨hd, hn, b₁, b₂, hb₁, hb₂, rfl⟩ := h
  let groups : Groups := [(1, ⟨d ++ (b₂ ++ ')' :: r), d.length⟩)]
  refine ⟨groups, waitStart, b₁ ++ (d ++ (b₂ ++ [')'])), [],
    ⟨?_, rfl, rfl⟩, ?_, rfl⟩
  · exact ⟨_, (List.append_assoc _ _ _).symm⟩
  refine ⟨b₁, d ++ (b₂ ++ [')']), [], ⟨?_, hb₁, Nat.zero_le _, rfl⟩, ?_, rfl⟩
  · simp [Place.advance]
  refine ⟨d, b₂ ++ [')'], groups, ⟨[], ⟨?_, hd, List.length_pos_iff.mpr hn, rfl⟩, ?_⟩, ?_, rfl⟩
  · simp [Place.advance]
  · simp [groups, Place.advance]
  refine ⟨b₂, [')'], _, ⟨?_, hb₂, Nat.zero_le _, rfl⟩, ⟨?_, rfl, rfl⟩, rfl⟩
  · simp [Place.advance]
  · simp [Place.advance]

/-- The pattern takes a fixed wait and nothing else. -/
theorem matchAt_timeoutCall_iff {b : Option Char} {t : Text} {o : Nat} {h : Hit} :
    timeoutCall.matchAt ⟨b, t, o⟩ = some h ↔
      ∃ d w r, IsWait d w ∧ t = w ++ r ∧ h = waitHit o d w := by
  constructor
  · intro hm
    obtain ⟨s, groups, ht, rfl⟩ := Pattern.matchAt_sound hm
    obtain ⟨d, r, hw, e, hh⟩ := exists_of_timeoutCall_takes ht
    exact ⟨d, s, r, hw, e, hh⟩
  · rintro ⟨d, w, r, hw, rfl, rfl⟩
    obtain ⟨h, hm⟩ := Option.isSome_iff_exists.mp
      (Pattern.isSome_matchAt_iff.mpr ⟨w, timeoutCall_takes hw b r o⟩)
    obtain ⟨s, groups, ht, rfl⟩ := Pattern.matchAt_sound hm
    obtain ⟨d', r', hw', e, hh⟩ := exists_of_timeoutCall_takes ht
    obtain ⟨rfl, rfl, -⟩ := hw.inj hw' e
    rw [hm, hh]

theorem timeoutCall_advances : timeoutCall.Advances := by
  rintro ⟨b, t, o⟩ h hm
  obtain ⟨d, w, r, hw, -, rfl⟩ := matchAt_timeoutCall_iff.mp hm
  obtain ⟨s, rfl, -⟩ := hw.exists_cons
  exact List.cons_ne_nil 'w' s

/-- A hit is a fixed wait that stands in the text. -/
theorem exists_of_mem_timeoutCall {t : Text} {h : Hit} (hh : h ∈ timeoutCall.findAll t) :
    ∃ d w o, IsWait d w ∧ w <:+: t ∧ h = waitHit o d w := by
  obtain ⟨a, r, e, -, hm⟩ := Pattern.exists_of_mem_findAll timeoutCall_advances hh
  obtain ⟨d, w, r', hw, -, hq⟩ := matchAt_timeoutCall_iff.mp hm
  refine ⟨d, w, h.offset, hw, ⟨a, r, ?_⟩, hq⟩
  rw [e, hq, waitHit_text]

/-! ### Waits among inserted lines -/

section Inserted

open Text

variable {d w : Text}

/-- What begins a wait and has no parenthesis does not reach into the next line. -/
theorem IsWait.of_skip_line (hw : IsWait d w) {l t : Text} (hl : '(' ∉ l)
    (h : w <:+: l ++ '\n' :: t) : w <:+: t := by
  have hstart : '(' ∈ waitStart := by decide
  have hmem : '(' ∈ w := hw.start_prefix_text.subset hstart
  rcases infix_append h with h | h | ⟨s, t', hs, ht, rfl, hsl, htn⟩
  · exact absurd (h.subset hmem) hl
  · obtain ⟨u, rfl, -⟩ := hw.exists_cons
    exact infix_of_head_not_mem (a := ['\n']) (by decide) h
  · exfalso
    cases t' with
    | nil => exact ht rfl
    | cons c t' =>
        obtain ⟨rfl, -⟩ := List.cons_prefix_cons.mp htn
        rcases prefix_append hw.start_prefix_text with hp | ⟨u, hu, e, hp⟩
        · exact hl (hsl.subset (hp.subset hstart))
        · cases u with
          | nil => exact hu rfl
          | cons c u =>
              obtain ⟨rfl, -⟩ := List.cons_prefix_cons.mp hp
              have hn : '\n' ∈ waitStart := by
                rw [e]
                exact List.mem_append_right s List.mem_cons_self
              exact absurd hn (by decide)

theorem IsWait.not_infix_of_paren_not_mem (hw : IsWait d w) {t : Text} (ht : '(' ∉ t) :
    ¬w <:+: t := fun h => ht (h.subset (hw.start_prefix_text.subset (by decide)))

/-- A line that leaves no parenthesis open at its end. -/
def IsClosed (l : Text) : Prop := '(' ∉ l ∨ ∃ s, l = s ++ [';']

/-- A wait in some lines that begin with closed ones stands in one of these or in the rest. -/
theorem IsWait.of_closed (hw : IsWait d w) {post : List Text} : ∀ {mid : List Text},
    (∀ l ∈ mid, IsClosed l) → w <:+: joinLines (mid ++ post) →
      (∃ l ∈ mid, w <:+: l) ∨ w <:+: joinLines post
  | [], _, h => Or.inr h
  | l :: mid, hmid, h => by
      have ih : w <:+: joinLines (mid ++ post) →
          (∃ x ∈ l :: mid, w <:+: x) ∨ w <:+: joinLines post := fun h =>
        (hw.of_closed (fun x hx => hmid x (List.mem_cons_of_mem l hx)) h).imp_left
          fun ⟨x, hx, h⟩ => ⟨x, List.mem_cons_of_mem l hx, h⟩
      rw [List.cons_append] at h
      cases hrest : mid ++ post with
      | nil =>
          rw [hrest, joinLines_singleton] at h
          exact Or.inl ⟨l, List.mem_cons_self, h⟩
      | cons x rest =>
          rw [hrest, joinLines_cons_cons] at h
          rw [hrest] at ih
          rcases hmid l List.mem_cons_self with hl | ⟨s, rfl⟩
          · exact ih (hw.of_skip_line hl h)
          · have hc : ';' ∉ w := hw.not_mem (by decide) (by decide) (by decide) (by decide)
            rw [List.append_assoc, List.singleton_append] at h
            rcases infix_of_barrier hc h with h | h
            · exact Or.inl ⟨_, List.mem_cons_self, h.trans (List.prefix_append _ _).isInfix⟩
            · obtain ⟨u, rfl, -⟩ := hw.exists_cons
              exact ih (infix_of_head_not_mem (a := ['\n']) (by decide) h)

/-- Lines put between others make no wait but those that stand in one of them. -/
theorem IsWait.of_insert (hw : IsWait d w) {pre blank mid post : List Text} {indent s : Text}
    (hblank : ∀ l ∈ blank, l = []) (hi : ')' ∉ indent) (hs : '(' ∉ s)
    (hmid : ∀ l ∈ mid, IsClosed l)
    (h : w <:+: joinLines (pre ++ (blank ++ (indent ++ '/' :: s) :: mid) ++ post)) :
    (∃ l ∈ mid, w <:+: l) ∨ w <:+: joinLines (pre ++ post) := by
  have hc : '/' ∉ w := hw.not_mem (by decide) (by decide) (by decide) (by decide)
  rw [List.append_assoc, List.append_assoc, ← List.append_assoc, List.cons_append,
    joinLines_cut] at h
  rcases infix_of_barrier hc h with h | h
  · -- what stands before the slash are the lines before and blanks
    right
    have hpre : w <:+: joinLines pre := by
      obtain ⟨u, rfl⟩ := hw.exists_concat
      have hnot : ')' ∉ joinLines (blank ++ [indent]) := by
        refine not_mem_joinLines (by decide) fun l hl => ?_
        rcases List.mem_append.mp hl with hl | hl
        · rw [hblank l hl]
          exact List.not_mem_nil
        · rw [List.mem_singleton.mp hl]
          exact hi
      rw [List.append_assoc] at h
      cases pre with
      | nil =>
          rw [List.nil_append] at h
          exact absurd (h.subset (List.mem_append_right u List.mem_cons_self)) hnot
      | cons l pre =>
          rw [joinLines_append (List.cons_ne_nil l pre) (by simp)] at h
          refine infix_of_last_not_mem (fun hm => ?_) h
          rcases List.mem_cons.mp hm with e | hm
          · exact absurd e (by decide)
          · exact hnot hm
    exact hpre.trans (joinLines_prefix_append pre post).isInfix
  · have hclosed : ∀ l ∈ s :: mid, IsClosed l := by
      intro l hl
      rcases List.mem_cons.mp hl with rfl | hl
      · exact Or.inl hs
      · exact hmid l hl
    have h : w <:+: joinLines ((s :: mid) ++ post) := h
    rcases hw.of_closed hclosed h with ⟨l, hl, hwl⟩ | hpost
    · rcases List.mem_cons.mp hl with e | hl
      · exact absurd (e ▸ hwl) (hw.not_infix_of_paren_not_mem hs)
      · exact Or.inl ⟨l, hl, hwl⟩
    · exact Or.inr (hpost.trans (joinLines_suffix_append pre post).isInfix)

end Inserted

end Literal
end SuiteAudit
