import SuiteAudit.Proofs.Literal.LongText
import SuiteAudit.Proofs.Literal.WaitCall
import SuiteAudit.Proofs.Refactoring.GivenName
import SuiteAudit.Proofs.Table

/-! # Waits that are left

In a text with names in place of its fixed waits, each wait that still stands anywhere is one of
the hits of the text before, and its numeral has no name (`exists_hit_of_infix_named`).  In a text
without names this says that waits never overlap: each one is a hit (`exists_hit_of_infix`).  Names
in place of quoted texts make no new waits (`infix_of_infix_replaced`). -/

namespace SuiteAudit
namespace Extraction

open Literal

variable {timeouts : Table Text Text} {d w : Text}

theorem replaceTimeout_of_none (h : timeouts.get? d = none) (o : Nat) :
    replaceTimeout timeouts (waitHit o d w) = w := by
  simp [replaceTimeout, h]

theorem replaceTimeout_of_some {name : Text} (h : timeouts.get? d = some name) (o : Nat) :
    replaceTimeout timeouts (waitHit o d w) = waitStart ++ (name ++ [')']) := by
  simp only [replaceTimeout, waitHit_value, h]
  rfl

/-- Whether it is named or not, a wait goes on beginning with its only `w`. -/
theorem exists_replaceTimeout_cons (hn : ∀ n ∈ timeouts.values, IsNameText n) (hw : IsWait d w)
    (o : Nat) : ∃ s, replaceTimeout timeouts (waitHit o d w) = 'w' :: s ∧ 'w' ∉ s := by
  cases hg : timeouts.get? d with
  | none =>
      rw [replaceTimeout_of_none hg]
      exact hw.exists_cons
  | some name =>
      rw [replaceTimeout_of_some hg]
      refine ⟨waitTail ++ (name ++ [')']), rfl, ?_⟩
      have hname : 'w' ∉ name :=
        (hn name (Table.mem_values_of_get? hg)).not_mem (by decide)
      simp only [List.mem_append, List.mem_singleton, not_or]
      exact ⟨by decide, hname, by decide⟩

/-- No numeral follows the parenthesis of a named wait. -/
theorem not_wait_prefix_named {name r : Text} (hn : IsNameText name) (hw : IsWait d w) :
    ¬w <+: waitStart ++ (name ++ [')']) ++ r := by
  intro hp
  obtain ⟨hd, hne, b₁, b₂, hb₁, -, rfl⟩ := hw
  rw [List.append_assoc, List.prefix_append_right_inj] at hp
  obtain ⟨c, name, rfl⟩ : ∃ c n, name = c :: n := by
    cases name with
    | nil => cases hn.capital
    | cons c n => exact ⟨c, n, rfl⟩
  have hc := hn.chars c List.mem_cons_self
  cases b₁ with
  | nil =>
      cases d with
      | nil => exact hne rfl
      | cons x d =>
          obtain ⟨rfl, -⟩ := List.cons_prefix_cons.mp hp
          have := not_isDigit_of_isUpper hc hn.capital
          rw [hd x List.mem_cons_self] at this
          cases this
  | cons x b₁ =>
      obtain ⟨rfl, -⟩ := List.cons_prefix_cons.mp hp
      have := Text.not_isBlank_of_isWordChar (isWordChar_of_isNameChar hc)
      rw [hb₁ x List.mem_cons_self] at this
      cases this

/-- What holds no `w` is not changed where no replaced wait begins. -/
theorem prefix_of_prefix_named (hn : ∀ n ∈ timeouts.values, IsNameText n) {b : Option Char} {o : Nat}
    {t : Text} : ∀ {x : Text}, 'w' ∉ x →
      x <+: timeoutCall.replaceFrom (replaceTimeout timeouts) 0 b o t → x <+: t := by
  induction b, o, t using Pattern.scan_induction timeoutCall_advances with
  | nil b o => exact fun _ h => h
  | miss b o c t hm ih =>
      intro x hx h
      rw [Pattern.replaceFrom_miss _ hm] at h
      cases x with
      | nil => exact List.nil_prefix
      | cons y x =>
          obtain ⟨rfl, h⟩ := List.cons_prefix_cons.mp h
          exact List.cons_prefix_cons.mpr ⟨rfl, ih (fun hy => hx (List.mem_cons_of_mem y hy)) h⟩
  | hit b o h r hne hm ih =>
      intro x hx hp
      rw [Pattern.replaceFrom_hit _ hne hm] at hp
      obtain ⟨d, w, -, hw, -, rfl⟩ := matchAt_timeoutCall_iff.mp hm
      obtain ⟨s, e, -⟩ := exists_replaceTimeout_cons hn hw o
      rw [e, List.cons_append] at hp
      cases x with
      | nil => exact List.nil_prefix
      | cons y x =>
          obtain ⟨rfl, -⟩ := List.cons_prefix_cons.mp hp
          exact absurd List.mem_cons_self hx

theorem exists_hit_of_infix_from (hn : ∀ n ∈ timeouts.values, IsNameText n) (hw : IsWait d w)
    (b : Option Char) (o : Nat) (t : Text)
    (h : w <:+: timeoutCall.replaceFrom (replaceTimeout timeouts) 0 b o t) :
    timeouts.get? d = none ∧
      ∃ hit ∈ timeoutCall.findAllFrom 0 b o t, hit.group 1 = d ∧ hit.text = w := by
  obtain ⟨s, hs, hws⟩ := hw.exists_cons
  induction b, o, t using Pattern.scan_induction timeoutCall_advances with
  | nil b o =>
      rw [List.infix_nil.mp h] at hs
      cases hs
  | miss b o c t hm ih =>
      rw [Pattern.replaceFrom_miss _ hm] at h
      rw [Pattern.findAllFrom_miss hm]
      rcases List.infix_cons_iff.mp h with hp | h
      · -- the wait would have been taken here
        rw [hs] at hp
        obtain ⟨rfl, hp⟩ := List.cons_prefix_cons.mp hp
        obtain ⟨r, rfl⟩ := prefix_of_prefix_named hn hws hp
        have : timeoutCall.matchAt ⟨b, 'w' :: (s ++ r), o⟩ = some (waitHit o d w) :=
          matchAt_timeoutCall_iff.mpr ⟨d, w, r, hw, by rw [hs, List.cons_append], rfl⟩
        rw [hm] at this
        cases this
      · exact ih h
  | hit b o g r hne hm ih =>
      rw [Pattern.replaceFrom_hit _ hne hm] at h
      rw [Pattern.findAllFrom_hit hne hm]
      obtain ⟨d', w', r', hw', e, rfl⟩ := matchAt_timeoutCall_iff.mp hm
      obtain ⟨s', e', hs'⟩ := exists_replaceTimeout_cons hn hw' o
      rw [e', List.cons_append] at h
      rcases List.infix_cons_iff.mp h with hp | h
      -- it begins where the wait that is taken here does, or behind it
      · rw [← List.cons_append, ← e'] at hp
        cases hg : timeouts.get? d' with
        | none =>
            rw [replaceTimeout_of_none hg] at hp
            obtain ⟨u, hu⟩ := hp
            obtain ⟨rfl, rfl, -⟩ := hw.inj hw' hu
            exact ⟨hg, _, List.mem_cons_self, rfl, rfl⟩
        | some name =>
            rw [replaceTimeout_of_some hg] at hp
            have hname := hn name (Table.mem_values_of_get? hg)
            exact absurd hp (not_wait_prefix_named hname hw)
      · rw [hs] at h
        have hr := Text.infix_of_head_not_mem hs' h
        rw [← hs] at hr
        obtain ⟨hg, hit, hm', hh⟩ := ih hr
        exact ⟨hg, hit, List.mem_cons_of_mem _ hm', hh⟩

/-- A wait in a text with its waits named stood there before and has no name. -/
theorem exists_hit_of_infix_named (hn : ∀ n ∈ timeouts.values, IsNameText n) (hw : IsWait d w)
    {t : Text} (h : w <:+: timeoutCall.replaceAll (replaceTimeout timeouts) t) :
    timeouts.get? d = none ∧ ∃ hit ∈ timeoutCall.findAll t, hit.group 1 = d ∧ hit.text = w :=
  exists_hit_of_infix_from hn hw none 0 t h

/-! ### Quoted texts with names -/

/-- What ends with a parenthesis and holds neither a mark nor an underscore is not changed where no
replaced text begins. -/
theorem prefix_of_prefix_replaced {data : Table Text Text} (hn : ∀ n ∈ data.values, IsNameText n)
    {b : Option Char} {o : Nat} {t : Text} : ∀ {x : Text},
      (∀ c ∈ x ++ [')'], isMark c = false ∧ c ≠ '_') →
      x ++ [')'] <+: longText.replaceFrom (replaceData data) 0 b o t → x ++ [')'] <+: t := by
  induction b, o, t using Pattern.scan_induction longText_advances with
  | nil b o => exact fun _ h => h
  | miss b o c t hm ih =>
      intro x hx h
      rw [Pattern.replaceFrom_miss _ hm] at h
      cases x with
      | nil =>
          obtain ⟨rfl, -⟩ := List.cons_prefix_cons.mp h
          exact ⟨t, rfl⟩
      | cons y x =>
          obtain ⟨rfl, h⟩ := List.cons_prefix_cons.mp h
          exact List.cons_prefix_cons.mpr
            ⟨rfl, ih (fun c hc => hx c (List.mem_cons_of_mem y hc)) h⟩
  | hit b o g r hne hm ih =>
      intro x hx h
      rw [Pattern.replaceFrom_hit _ hne hm] at h
      obtain ⟨q, v, -, hv, -, rfl⟩ := matchAt_longText_iff.mp hm
      exfalso
      rw [replaceData, quoteHit_value, quoteHit_text] at h
      cases hg : data.get? v with
      | none =>
          rw [hg, Option.getD_none, quote, List.cons_append] at h
          have hq : q ∈ x ++ [')'] := by
            cases x with
            | nil => exact List.mem_singleton.mpr (List.cons_prefix_cons.mp h).1.symm
            | cons y x =>
                rw [(List.cons_prefix_cons.mp h).1]
                exact List.mem_cons_self
          have := (hx q hq).1
          rw [hv.mark] at this
          cases this
      | some name =>
          have hname := hn name (Table.mem_values_of_get? hg)
          rw [hg, Option.getD_some] at h
          rcases Text.prefix_append h with h | ⟨s, -, e, -⟩
          · have hp : ')' ∈ name := h.subset (by simp)
            exact hname.not_mem (by decide) hp
          · exact (hx '_' (by rw [e]; exact List.mem_append_left s hname.underscore)).2 rfl

/-- A wait in a text with its quoted texts named stood there before. -/
theorem infix_of_infix_replaced {data : Table Text Text} (hn : ∀ n ∈ data.values, IsNameText n)
    (hw : IsWait d w) {t : Text} (h : w <:+: longText.replaceAll (replaceData data) t) :
    w <:+: t := by
  obtain ⟨s, hs, hws⟩ := hw.exists_cons
  obtain ⟨u, hu⟩ := hw.exists_concat
  have hchars : ∀ c ∈ u ++ [')'], isMark c = false ∧ c ≠ '_' := fun c hc =>
    hw.not_mark_mem (hu ▸ hc)
  have key : ∀ (b : Option Char) (o : Nat) (t : Text),
      w <:+: longText.replaceFrom (replaceData data) 0 b o t → w <:+: t := by
    intro b o t
    induction b, o, t using Pattern.scan_induction longText_advances with
    | nil b o => exact fun h => h
    | miss b o c t hm ih =>
        intro h
        have hrep := Pattern.replaceFrom_miss (replaceData data) hm
        rw [hrep] at h
        rcases List.infix_cons_iff.mp h with hp | h
        · rw [← hrep, hu] at hp
          rw [hu]
          exact (prefix_of_prefix_replaced hn hchars hp).isInfix
        · exact (ih h).trans (List.suffix_cons c t).isInfix
    | hit b o g r hne hm ih =>
        intro h
        rw [Pattern.replaceFrom_hit _ hne hm] at h
        obtain ⟨q, v, -, hv, -, rfl⟩ := matchAt_longText_iff.mp hm
        rw [replaceData, quoteHit_value, quoteHit_text] at h
        cases hg : data.get? v with
        | some name =>
            -- no wait begins within a name
            have hname := hn name (Table.mem_values_of_get? hg)
            rw [hg, Option.getD_some, hs] at h
            have := Text.infix_of_head_not_mem (hname.not_mem (by decide)) h
            rw [← hs] at this
            exact (ih this).trans (List.suffix_append _ r).isInfix
        | none =>
            rw [hg, Option.getD_none, quote, ← List.cons_append, List.append_assoc] at h
            have hq : q ∉ w := fun hm => by
              have := (hw.not_mark_mem hm).1
              rw [hv.mark] at this
              cases this
            rcases Text.infix_of_barrier hq h with h | h
            · exact h.trans ⟨[], q :: r, by simp [quote]⟩
            · exact (ih h).trans (List.suffix_append _ r).isInfix
  exact key none 0 t h

/-- A wait that stands anywhere in a text is one of its hits. -/
theorem exists_hit_of_infix (hw : IsWait d w) {t : Text} (h : w <:+: t) :
    ∃ hit ∈ timeoutCall.findAll t, hit.group 1 = d ∧ hit.text = w := by
  have e : timeoutCall.replaceAll (replaceTimeout []) t = t :=
    Pattern.replaceAll_eq_self timeoutCall_advances fun _ _ => rfl
  rw [← e] at h
  exact (exists_hit_of_infix_named (fun _ hn => by cases hn) hw h).2

end Extraction
end SuiteAudit
