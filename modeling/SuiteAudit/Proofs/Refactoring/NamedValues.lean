import SuiteAudit.Proofs.Literal.WaitCall
import SuiteAudit.Proofs.Refactoring.Definitions
import SuiteAudit.Proofs.Refactoring.Naming

/-! # The values that have names

The entries of an extraction, read in the text that they come from: a named wait stands in it with
its numeral (`exists_wait_of_mem`), named test data stands in it between two marks
(`exists_quote_of_mem`), and each name is one of the context or made up (`name_cases`). -/

namespace SuiteAudit
namespace Extraction

open Literal

variable {content : Text} {context : Context} {e : Extraction}

theorem exists_wait_of_mem (he : ofText content context = .ok e) {p : Text × Text}
    (hp : p ∈ e.timeouts) : IsLongWait p.1 ∧ ∃ w, IsWait p.1 w ∧ w <:+: content := by
  have hhas : e.timeouts.has p.1 = true := Table.has_iff.mpr (Table.exists_get?_of_mem hp)
  obtain ⟨⟨hit, hm, hv⟩, hlong⟩ := ((holds_of_ofText he).timeouts_iff p.1).mp hhas
  obtain ⟨d, w, o, hw, hin, rfl⟩ := exists_of_mem_timeoutCall hm
  rw [waitHit_value] at hv
  exact ⟨hlong, w, hv ▸ hw, hin⟩

theorem exists_quote_of_mem (he : ofText content context = .ok e) {p : Text × Text}
    (hp : p ∈ e.data) :
    looksLikeTestData p.1 = true ∧ ∃ q, IsLong q p.1 ∧ quote q p.1 <:+: content := by
  have hhas : e.data.has p.1 = true := Table.has_iff.mpr (Table.exists_get?_of_mem hp)
  obtain ⟨⟨hit, hm, hv⟩, hdata⟩ := ((holds_of_ofText he).data_iff p.1).mp hhas
  obtain ⟨a, q, v, r, hl, e, rfl⟩ := exists_of_mem_longText hm
  rw [quoteHit_value] at hv
  exact ⟨hdata, q, hv ▸ hl, a, r, by rw [e, hv]⟩

/-- A name of the file is one of the context or made up. -/
theorem name_cases (he : ofText content context = .ok e) {n : Text}
    (hn : n ∈ e.timeouts.values ++ e.data.values) :
    n ∈ context.timeouts.values ++ context.data.values ∨ IsGivenName n := by
  have h := holds_of_ofText he
  rcases List.mem_append.mp hn with hn | hn
  · obtain ⟨p, hp, rfl⟩ := List.mem_map.mp hn
    exact (h.keeps.timeouts _ (List.mem_map.mpr ⟨p, h.timeouts_subset hp, rfl⟩)).imp_left
      (List.mem_append_left _)
  · obtain ⟨p, hp, rfl⟩ := List.mem_map.mp hn
    exact (h.keeps.data _ (List.mem_map.mpr ⟨p, h.data_subset hp, rfl⟩)).imp_left
      (List.mem_append_right _)

/-! ### The names of waits -/

/-- A name that is made up for a wait. -/
def IsWaitName (name : Text) : Prop :=
  ∃ (ms : Nat) (taken : List Text), name = unusedName (timeoutName ms) taken

/-- No name that is made up for a wait holds a P. -/
theorem IsWaitName.not_mem {n : Text} (h : IsWaitName n) {c : Char} (hc : c ∈ ("Pp" : Text)) :
    c ∉ n := by
  obtain ⟨ms, taken, rfl⟩ := h
  have hparts : c.isDigit = false ∧ c ∉ ("TIMEOUT_" : Text) ∧ c ∉ ("MS" : Text) ∧
      c ∉ ("_" : Text) ∧ ∀ p ∈ timeoutNames, c ∉ p.2 := by
    have hcases : c = 'P' ∨ c = 'p' := by simpa using hc
    rcases hcases with rfl | rfl <;> decide
  obtain ⟨hno, hfront, hback, hline, hall⟩ := hparts
  have hnumeral : ∀ m : Nat, c ∉ Text.ofNat m := fun m hm => by
    have hd : c.isDigit = true := Nat.isDigit_of_mem_toDigits (by decide) (by decide) hm
    rw [hno] at hd
    cases hd
  have hbase : c ∉ timeoutName ms := by
    unfold timeoutName timeoutNameAs
    cases hf : timeoutNames.find? fun p => (p.1 : Rat) = ((ms : Int) : Rat) with
    | none =>
        simp only [Option.map_none, Option.getD_none, List.mem_append, not_or]
        exact ⟨⟨hfront, hnumeral ms⟩, hback⟩
    | some p =>
        exact hall p (List.mem_of_find?_eq_some hf)
  obtain e | ⟨m, e⟩ := unusedName_eq (timeoutName ms) taken <;> rw [e]
  · exact hbase
  · simp only [numberedName, List.mem_append, not_or]
    exact ⟨⟨hbase, hline⟩, hnumeral m⟩

/-- The names of waits are those of the context and made-up ones. -/
def WaitNamed (context : Context) (e : Extraction) : Prop :=
  ∀ n ∈ e.context.timeouts.values, n ∈ context.timeouts.values ∨ IsWaitName n

theorem WaitNamed.addTimeout {e' : Extraction} {hit : Hit} (h : WaitNamed context e)
    (hs : addTimeout content e hit = .ok e') : WaitNamed context e' := by
  obtain ⟨ms, -, ⟨-, rfl⟩ | ⟨-, -, name, e₁, hn, rfl⟩⟩ := addTimeout_cases hs
  · exact h
  · obtain ⟨_, _, hn', ⟨-, rfl⟩ | ⟨hname, rfl⟩⟩ := e.nameTimeout_cases (hit.group 1) ms
      <;> obtain ⟨rfl, rfl⟩ := Prod.mk.inj (hn.symm.trans hn')
    · exact h
    · intro n hm
      rcases mem_values_concat hm with hm | rfl
      · exact h n hm
      · exact .inr ⟨ms, _, hname⟩

/-- Test data leaves the names of waits alone. -/
theorem context_timeouts_addData (content : Text) (e : Extraction) (hit : Hit) :
    (addData content e hit).context.timeouts = e.context.timeouts := by
  obtain ⟨-, he⟩ | ⟨-, -, name, e₁, hn, he⟩ := addData_cases content e hit <;> rw [he]
  obtain ⟨_, _, hn', ⟨-, rfl⟩ | ⟨-, rfl⟩⟩ := e.nameData_cases (hit.group 2)
    <;> obtain ⟨rfl, rfl⟩ := Prod.mk.inj (hn.symm.trans hn') <;> rfl

theorem context_timeouts_foldl (content : Text) : ∀ (hits : List Hit) (e : Extraction),
    (hits.foldl (addData content) e).context.timeouts = e.context.timeouts
  | [], _ => rfl
  | hit :: hits, e => by
      rw [List.foldl_cons, context_timeouts_foldl content hits, context_timeouts_addData]

/-- A name of a wait is one of the context or made up for a wait. -/
theorem waitName_cases (he : ofText content context = .ok e) {n : Text}
    (hn : n ∈ e.timeouts.values) : n ∈ context.timeouts.values ∨ IsWaitName n := by
  have hsub := (holds_of_ofText he).timeouts_subset
  obtain ⟨p, hp, rfl⟩ := List.mem_map.mp hn
  have hmem : p.2 ∈ e.context.timeouts.values := List.mem_map.mpr ⟨p, hsub hp, rfl⟩
  have hstart : WaitNamed context (start context) := fun _ h => .inl h
  obtain ⟨e₁, hnamed, rfl⟩ := exists_waits_of_ofText (P := fun _ e => WaitNamed context e)
    (fun h ha => h.addTimeout ha) hstart he
  rw [context_timeouts_foldl] at hmem
  exact hnamed _ hmem

end Extraction
end SuiteAudit
