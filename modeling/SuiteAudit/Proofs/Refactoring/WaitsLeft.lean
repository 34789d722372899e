import SuiteAudit.Proofs.Literal.Doubled
import SuiteAudit.Proofs.Literal.WaitCall
import SuiteAudit.Proofs.Refactoring.Declared
import SuiteAudit.Proofs.Refactoring.NamedValues
import SuiteAudit.Proofs.Refactoring.NamedWaits

/-! # Waits in the new text

A wait in the new text of a file stands in a declared value or is one of the old ones without a name
(`wait_of_newText`).  So a long wait is left exactly when one stands in a value that is declared
(`exists_longWait_iff`). -/

namespace SuiteAudit
namespace Extraction

open Literal

variable {content : Text} {context : Context} {e : Extraction} {d w : Text}

/-- What stands in a declaration without a mark stands in the declared value. -/
theorem wait_of_definition (he : ofText content context = .ok e)
    (hn : ∀ n ∈ e.timeouts.values ++ e.data.values, IsNameText n) (hw : IsWait d w) {q : Quotes} {l : Text}
    (hl : IsDefinition e q l) (h : w <:+: l) : ∃ p ∈ e.data, w <:+: p.1 := by
  cases hl with
  | blank => exact absurd h (hw.not_infix_of_paren_not_mem List.not_mem_nil)
  | timeouts => exact absurd h (hw.not_infix_of_paren_not_mem (by decide))
  | data => exact absurd h (hw.not_infix_of_paren_not_mem (by decide))
  | @timeout p hp =>
      refine absurd h (hw.not_infix_of_paren_not_mem (not_mem_declaration (by decide) ?_ ?_))
      · exact (hn _ (mem_names_of_mem_timeouts hp)).not_mem (by decide)
      · obtain ⟨-, u, hu, -⟩ := exists_wait_of_mem he hp
        exact hu.not_mem_numeral (by decide +kernel)
  | @datum p hp =>
      refine ⟨p, hp, ?_⟩
      have hname : '(' ∉ p.2 := (hn _ (mem_names_of_mem_data hp)).not_mem (by decide)
      obtain ⟨-, q', hlong, -⟩ := exists_quote_of_mem he hp
      have hmark : q.mark ∉ w := fun hm => by
        have := (hw.not_mark_mem hm).1
        revert this
        cases q <;> decide
      have hb : '\\' ∉ w := hw.not_mem (by decide) (by decide) (by decide) (by decide)
      rw [literal_eq_quote q fun c hc => hlong.not_mark_mem hc, declaration_quote] at h
      rcases Text.infix_of_barrier hmark h with h | h
      · refine absurd h (hw.not_infix_of_paren_not_mem ?_)
        simp only [List.mem_append, not_or]
        exact ⟨⟨by decide, hname⟩, by decide⟩
      · rcases Text.infix_of_barrier hmark h with h | h
        · exact infix_of_infix_doubled hb h
        · exact absurd h (hw.not_infix_of_paren_not_mem (by decide))

theorem isClosed_of_definition {q : Quotes} {l : Text}
    (hl : IsDefinition e q l) : IsClosed l := by
  cases hl with
  | blank => exact Or.inl List.not_mem_nil
  | timeouts => exact Or.inl (by decide)
  | data => exact Or.inl (by decide)
  | timeout _ => exact Or.inr ⟨_, rfl⟩
  | datum _ => exact Or.inr ⟨_, rfl⟩

/-- A wait in the new text stands in a declared value or is one of the old ones without a name. -/
theorem wait_of_newText (he : ofText content context = .ok e)
    (hn : ∀ n ∈ e.timeouts.values ++ e.data.values, IsNameText n) (hw : IsWait d w)
    (h : w <:+: e.newText content) : (∃ p ∈ e.data, w <:+: p.1) ∨
      e.timeouts.get? d = none ∧ ∃ hit ∈ timeoutCall.findAll content, hit.group 1 = d := by
  cases hne : e.timeouts.isEmpty && e.data.isEmpty with
  | true =>
      rw [newText_of_isEmpty content hne] at h
      obtain ⟨hit, hm, hd, -⟩ := exists_hit_of_infix hw h
      rw [Bool.and_eq_true, List.isEmpty_iff] at hne
      exact Or.inr ⟨by rw [hne.1]; rfl, hit, hm, hd⟩
  | false =>
      obtain ⟨pre, blank, post, hlines, hblank, hnew⟩ := exists_newText content hne
      obtain ⟨head, rest, hhead, hdecl⟩ :=
        exists_declarations_cons (CodeStyle.quotesOf content) hne
      have hdef : ∀ l ∈ rest, IsDefinition e (CodeStyle.quotesOf content) l := fun l hl =>
        isDefinition_of_mem (by rw [hdecl]; exact List.mem_cons_of_mem _ hl)
      rw [hnew, hdecl, ← List.nil_append ('/' :: head)] at h
      rcases hw.of_insert hblank List.not_mem_nil hhead
        (fun l hl => isClosed_of_definition (hdef l hl)) h with ⟨l, hl, h⟩ | h
      · exact Or.inl (wait_of_definition he hn hw (hdef l hl) h)
      · rw [← hlines, Text.joinLines_lines] at h
        have h := infix_of_infix_replaced (fun n hm => hn n (List.mem_append_right _ hm)) hw h
        obtain ⟨hnone, hit, hm, hd, -⟩ := exists_hit_of_infix_named (fun n hm =>
          hn n (List.mem_append_left _ hm)) hw h
        exact Or.inr ⟨hnone, hit, hm, hd⟩

/-- A long wait stands in a text. -/
def HoldsLongWait (v : Text) : Prop := ∃ d w, IsWait d w ∧ IsLongWait d ∧ w <:+: v

/-- What stands in a declared value stands in the new text, when it holds no backslash. -/
theorem infix_newText_of_mem_data (he : ofText content context = .ok e) {p : Text × Text}
    (hp : p ∈ e.data) (hb : '\\' ∉ w) (h : w <:+: p.1) : w <:+: e.newText content := by
  obtain ⟨-, q, hlong, -⟩ := exists_quote_of_mem he hp
  obtain ⟨a, r, e'⟩ := h
  have hdoubled : w <:+: doubled p.1 := by
    rw [← e', doubled_append, doubled_append, doubled_of_not_mem hb]
    exact List.infix_append _ _ _
  have hdecl := declaration_infix_newText content (show (p.1, p.2) ∈ e.data from hp)
  rw [literal_eq_quote _ fun c hc => hlong.not_mark_mem hc, declaration_quote] at hdecl
  refine hdoubled.trans (List.IsInfix.trans ?_ hdecl)
  exact ⟨'\n' :: (("const " ++ p.2 ++ " = " : Text) ++ [(CodeStyle.quotesOf content).mark]),
    (CodeStyle.quotesOf content).mark :: (";" : Text) ++ ['\n'], by simp⟩

/-- A long wait is left in the new text exactly when a value that has a name holds one. -/
theorem exists_longWait_iff (he : ofText content context = .ok e)
    (hn : ∀ n ∈ e.timeouts.values ++ e.data.values, IsNameText n) :
    (∃ hit ∈ timeoutCall.findAll (e.newText content), IsLongWait (hit.group 1)) ↔
      ∃ p ∈ e.data, HoldsLongWait p.1 := by
  constructor
  · rintro ⟨hit, hm, hlong⟩
    obtain ⟨d, w, o, hw, hin, rfl⟩ := exists_of_mem_timeoutCall hm
    rw [waitHit_value] at hlong
    rcases wait_of_newText he hn hw hin with ⟨p, hp, hin⟩ | ⟨hnone, hhit⟩
    · exact ⟨p, hp, d, w, hw, hlong, hin⟩
    · have hhas := ((holds_of_ofText he).timeouts_iff d).mpr ⟨hhit, hlong⟩
      rw [Table.has, hnone] at hhas
      cases hhas
  · rintro ⟨p, hp, d, w, hw, hlong, hin⟩
    have hb : '\\' ∉ w := hw.not_mem (by decide) (by decide) (by decide) (by decide)
    obtain ⟨hit, hm, hd, -⟩ := exists_hit_of_infix hw (infix_newText_of_mem_data he hp hb hin)
    exact ⟨hit, hm, hd ▸ hlong⟩

end Extraction
end SuiteAudit
