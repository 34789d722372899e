import SuiteAudit.Proofs.Literal.Denotation
import SuiteAudit.Proofs.Refactoring.Definitions
import SuiteAudit.Proofs.Refactoring.Naming
import SuiteAudit.Proofs.Refactoring.Replaced

/-! # What a declared name stands for

Each name that takes the place of a quoted text is declared in the new text, once among the
declarations when the names of the context are distinct.  The declaration writes the text between
the marks as a value, so that it denotes what the replaced literal did exactly when that text holds
no backslash (`declared_denotes_iff`); an escape is escaped again (`escape_is_escaped`). -/

namespace SuiteAudit

theorem declaration_infix_block (a : List Text) (heading : Text) (value : Text → Text)
    {table : Table Text Text} {p : Text × Text} (hp : p ∈ table) :
    '\n' :: (declaration p.2 (value p.1) ++ ['\n']) <:+:
      Text.joinLines (a ++ declarationLines heading value table) := by
  obtain ⟨l₁, l₂, rfl⟩ := List.append_of_mem hp
  have e : a ++ declarationLines heading value (l₁ ++ p :: l₂) =
      (a ++ heading :: l₁.map fun p => declaration p.2 (value p.1)) ++
        [declaration p.2 (value p.1)] ++
        ((l₂.map fun p => declaration p.2 (value p.1)) ++ [[]]) := by
    rw [declarationLines_eq _ _ (by simp), List.map_append, List.map_cons]
    simp only [List.append_assoc, List.cons_append, List.nil_append]
  rw [e]
  exact Text.line_infix_joinLines (by simp) (by simp) _

namespace Extraction

/-- Test data with a name is declared in the new text. -/
theorem declaration_infix_newText {e : Extraction} (content : Text) {value name : Text}
    (hp : (value, name) ∈ e.data) :
    '\n' :: (declaration name ((CodeStyle.quotesOf content).literal value) ++ ['\n']) <:+:
      e.newText content := by
  have hne : e.data.isEmpty = false := by
    cases hd : e.data with
    | nil => rw [hd] at hp; cases hp
    | cons _ _ => rfl
  obtain ⟨pre, blank, post, -, -, hnew⟩ :=
    exists_newText content (by rw [hne, Bool.and_false] : (e.timeouts.isEmpty && _) = false)
  have hblock : pre ++ (blank ++ e.declarations (CodeStyle.quotesOf content)) ++ post =
      pre ++ (blank ++ declarationLines "// Timeout constants" id e.timeouts) ++
        declarationLines "// Test data constants" (CodeStyle.quotesOf content).literal e.data ++
        post := by
    rw [declarations, Context.definitionLines]
    simp only [List.append_assoc]
  rw [hnew, hblock]
  exact (declaration_infix_block _ _ _ hp).trans (Text.joinLines_prefix_append _ _).isInfix

/-- Where the names of the context are distinct, a name of the file stands for one value. -/
theorem eq_of_name_eq {context : Context} {waits texts : List Hit} {e : Extraction}
    (h : Holds context waits texts e) (hd : context.names.Nodup) {p q : Text × Text}
    (hp : p ∈ e.timeouts ++ e.data) (hq : q ∈ e.timeouts ++ e.data) (hpq : p.2 = q.2) : p = q := by
  have hsub : e.timeouts ++ e.data ⊆ e.context.timeouts ++ e.context.data :=
    List.append_subset.mpr
      ⟨List.subset_append_of_subset_left _ h.timeouts_subset,
        List.subset_append_of_subset_right _ h.data_subset⟩
  have hnodup : Table.values (e.context.timeouts ++ e.context.data) |>.Nodup := by
    have := h.keeps.distinct hd
    rw [Context.names] at this
    rw [Table.values, List.map_append]
    exact (List.nodup_append.mp this).1
  exact Table.eq_of_values_nodup hnodup (hsub hp) (hsub hq) hpq

/-- The name of a replaced literal is declared in the new text, and by no other declaration when the
names of the context are distinct; the literal in the declaration denotes what the replaced one did,
with either marks, exactly when there is no backslash between the marks. -/
theorem declared_denotes_iff {content : Text} {context : Context} {e : Extraction} {legacy : Bool}
    {hit : Hit} {s : List Nat} (he : ofText content context = .ok e)
    (hhit : hit ∈ e.replacedTexts content)
    (hs : Literal.readLiteral legacy hit.text = some s) :
    ∃ name, (hit, name) ∈ e.nameEdits content ∧
      '\n' :: (declaration name ((CodeStyle.quotesOf content).literal (hit.group 2)) ++ ['\n']) <:+:
        e.newText content ∧
      (context.names.Nodup → ∀ p ∈ e.timeouts ++ e.data, p.2 = name → p = (hit.group 2, name)) ∧
      ∀ q : Quotes, Literal.readLiteral legacy (q.literal (hit.group 2)) = some s ↔
        '\\' ∉ hit.group 2 := by
  obtain ⟨hm, hname⟩ := List.mem_filter.mp hhit
  obtain ⟨name, hget⟩ := Table.has_iff.mp hname
  have hmem := Table.mem_of_get? hget
  refine ⟨name, ?_, declaration_infix_newText content hmem, ?_, ?_⟩
  · exact List.mem_filterMap.mpr ⟨hit, hm, by simp [hget]⟩
  · intro hd p hp hpn
    exact eq_of_name_eq (holds_of_ofText he) hd hp (List.mem_append_right _ hmem) hpn
  · obtain ⟨_, mark, v, _, hv, -, rfl⟩ := Literal.exists_of_mem_longText hm
    simp only [Literal.quoteHit_text, Literal.quoteHit_value] at hs ⊢
    have hmark : mark ∉ v := hv.mark_not_mem
    intro q
    rw [Literal.readLiteral_literal]
    constructor
    · intro h hb
      split at h
      · cases h
      · obtain rfl := Option.some.inj h
        exact Nat.lt_irrefl _ (Literal.length_lt_of_readLiteral_quote hv.mark hmark hb hs)
    · intro hb
      rw [Literal.quote, Literal.readLiteral, if_pos hv.mark] at hs
      obtain ⟨hn, rfl⟩ := Literal.readBody_plain hmark hb hs
      rw [if_neg hn]

def plainContent : Text := "await page.fill('#field', 'first password of two');"

theorem plain_literal_is_declared : ∃ e hit s, ofText plainContent {} = .ok e ∧
    hit ∈ e.replacedTexts plainContent ∧ Literal.readLiteral false hit.text = some s ∧
    ∃ name, (hit, name) ∈ e.nameEdits plainContent ∧
      '\n' :: (declaration name ((CodeStyle.quotesOf plainContent).literal (hit.group 2)) ++
        ['\n']) <:+: e.newText plainContent ∧
      (({} : Context).names.Nodup →
        ∀ p ∈ e.timeouts ++ e.data, p.2 = name → p = (hit.group 2, name)) ∧
      ∀ q : Quotes, Literal.readLiteral false (q.literal (hit.group 2)) = some s ↔
        '\\' ∉ hit.group 2 := by
  have h : (ofText plainContent {}).toOption.any (fun e => (e.replacedTexts plainContent).any
      fun hit => (Literal.readLiteral false hit.text).isSome) = true := by
    decide +kernel
  obtain ⟨e, he, h⟩ := exists_ok_of_any h
  obtain ⟨hit, hm, hs⟩ := List.any_eq_true.mp h
  obtain ⟨s, hs⟩ := Option.isSome_iff_exists.mp hs
  exact ⟨e, hit, s, he, hm, hs, declared_denotes_iff he hm hs⟩

/-- A literal with an escape for a tab. -/
def tabContent : Text := "await page.fill('#field', 'pass\\tword password');"

/-- The replaced literal denotes a text with a tab, and the one in its declaration a text with a
backslash and a letter. -/
theorem escape_is_escaped : ∃ e, ofText tabContent {} = .ok e ∧ ∃ hit ∈ e.replacedTexts tabContent,
    Literal.readLiteral false hit.text = some (Literal.units "pass\tword password") ∧
    '\n' :: (declaration "TEST_PASSWORD" ((CodeStyle.quotesOf tabContent).literal (hit.group 2)) ++
      ['\n']) <:+: e.newText tabContent ∧
    ∀ q ∈ [Quotes.single, Quotes.double], Literal.readLiteral false (q.literal (hit.group 2)) =
      some (Literal.units "pass\\tword password") := by
  have h : (ofText tabContent {}).toOption.any (fun e => (e.replacedTexts tabContent).any fun hit =>
      Literal.readLiteral false hit.text = some (Literal.units "pass\tword password") ∧
      (hit.group 2, ("TEST_PASSWORD" : Text)) ∈ e.data ∧
      ∀ q ∈ [Quotes.single, Quotes.double], Literal.readLiteral false (q.literal (hit.group 2)) =
        some (Literal.units "pass\\tword password")) = true := by
    decide +kernel
  obtain ⟨e, he, h⟩ := exists_ok_of_any h
  obtain ⟨hit, hm, hh⟩ := List.any_eq_true.mp h
  obtain ⟨hread, hname, hquote⟩ := of_decide_eq_true hh
  exact ⟨e, he, hit, hm, hread, declaration_infix_newText tabContent hname, hquote⟩

end Extraction
end SuiteAudit
