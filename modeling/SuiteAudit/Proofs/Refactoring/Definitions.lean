import SuiteAudit.Proofs.Literal.LongText
import SuiteAudit.Proofs.Text.Lines
import SuiteAudit.Refactoring.Proposal

/-! # The lines that declare names

The declarations are lines: headings, blank lines, and a declaration for each name
(`Extraction.isDefinition_of_mem`).  A new text is the replaced one with these lines, perhaps behind
a blank one, between two of its own (`Extraction.exists_newText`); what is proposed is that with its
comments (`Proposal.after_of_ofText`). -/

namespace SuiteAudit

/-- The line that declares a name as a value. -/
def declaration (name value : Text) : Text := "const " ++ name ++ " = " ++ value ++ ";"

/-- What stands around a value between marks in its declaration. -/
theorem declaration_quote (name value : Text) (q : Char) :
    declaration name (Literal.quote q value) =
      ("const " ++ name ++ " = " : Text) ++ q :: (value ++ q :: (";" : Text)) := by
  unfold declaration Literal.quote
  simp only [List.append_assoc, List.cons_append, List.nil_append]

theorem declarationLines_eq (heading : Text) (value : Text → Text) {table : Table Text Text}
    (h : table ≠ []) : declarationLines heading value table =
      heading :: table.map (fun p => declaration p.2 (value p.1)) ++ [[]] := by
  rw [declarationLines, if_neg (by simpa using h)]
  rfl

/-! ### Literals -/

/-- The characters of a literal are those of its value, the mark and the backslash. -/
theorem mem_literal {q : Quotes} {value : Text} {c : Char} (h : c ∈ q.literal value) :
    c ∈ value ∨ c = q.mark ∨ c = '\\' := by
  rw [Quotes.literal, List.mem_append, List.mem_cons, List.mem_singleton] at h
  rcases h with (h | h) | h
  · exact Or.inr (Or.inl h)
  · obtain ⟨d, hd, h⟩ := List.mem_flatMap.mp h
    by_cases he : d = '\\' ∨ d = q.mark
    · rw [Quotes.escapeChar_of_special he, List.mem_cons, List.mem_singleton] at h
      rcases h with rfl | rfl
      · exact Or.inr (Or.inr rfl)
      · exact Or.inr he.symm
    · rw [Quotes.escapeChar_of_plain he, List.mem_singleton] at h
      rw [h]
      exact Or.inl hd
  · exact Or.inr (Or.inl h)

theorem not_mem_literal {q : Quotes} {value : Text} {c : Char} (hv : c ∉ value)
    (hc : Literal.isMark c = false) (hb : c ≠ '\\') : c ∉ q.literal value := by
  intro h
  rcases mem_literal h with h | rfl | h
  · exact hv h
  · cases q <;> cases hc
  · exact hb h

theorem not_mem_declaration {name value : Text} {c : Char} (hf : c ∉ ("const =;" : Text))
    (hn : c ∉ name) (hv : c ∉ value) : c ∉ declaration name value := by
  have hsub : ∀ t : Text, t.all ("const =;" : Text).elem = true → c ∉ t :=
    fun t ht hm => hf (List.elem_iff.mp (List.all_eq_true.mp ht c hm))
  unfold declaration
  simp only [List.mem_append, not_or]
  exact ⟨⟨⟨⟨hsub _ (by decide), hn⟩, hsub _ (by decide)⟩, hv⟩, hsub _ (by decide)⟩

/-! ### The block -/

/-- The declarations and headings, which follow the slash of the first heading. -/
theorem mem_declarationLines {heading : Text} {value : Text → Text} {table : Table Text Text}
    {l : Text} (h : l ∈ declarationLines heading value table) :
    l = heading ∨ l = [] ∨ ∃ p ∈ table, l = declaration p.2 (value p.1) := by
  cases table with
  | nil => cases h
  | cons p table =>
      rw [declarationLines_eq _ _ (List.cons_ne_nil p table)] at h
      rcases List.mem_append.mp h with h | h
      · rcases List.mem_cons.mp h with h | h
        · exact Or.inl h
        · obtain ⟨p, hp, rfl⟩ := List.mem_map.mp h
          exact Or.inr (Or.inr ⟨p, hp, rfl⟩)
      · exact Or.inr (Or.inl (List.mem_singleton.mp h))

namespace Extraction

/-- The lines of the declarations of a file. -/
def declarations (e : Extraction) (q : Quotes) : List Text :=
  ({ timeouts := e.timeouts, data := e.data } : Context).definitionLines q

theorem mem_names_of_mem_timeouts {e : Extraction} {p : Text × Text} (hp : p ∈ e.timeouts) :
    p.2 ∈ e.timeouts.values ++ e.data.values :=
  List.mem_append_left _ (List.mem_map.mpr ⟨p, hp, rfl⟩)

theorem mem_names_of_mem_data {e : Extraction} {p : Text × Text} (hp : p ∈ e.data) :
    p.2 ∈ e.timeouts.values ++ e.data.values :=
  List.mem_append_right _ (List.mem_map.mpr ⟨p, hp, rfl⟩)

/-- What a line of the declarations is. -/
inductive IsDefinition (e : Extraction) (q : Quotes) : Text → Prop
  | blank : IsDefinition e q []
  | timeouts : IsDefinition e q "// Timeout constants"
  | data : IsDefinition e q "// Test data constants"
  | timeout {p : Text × Text} : p ∈ e.timeouts → IsDefinition e q (declaration p.2 p.1)
  | datum {p : Text × Text} : p ∈ e.data → IsDefinition e q (declaration p.2 (q.literal p.1))

theorem isDefinition_of_mem {e : Extraction} {q : Quotes} {l : Text} (h : l ∈ e.declarations q) :
    IsDefinition e q l := by
  rcases List.mem_append.mp h with h | h
  · rcases mem_declarationLines h with rfl | rfl | ⟨p, hp, rfl⟩
    · exact .timeouts
    · exact .blank
    · exact .timeout hp
  · rcases mem_declarationLines h with rfl | rfl | ⟨p, hp, rfl⟩
    · exact .data
    · exact .blank
    · exact .datum hp

/-- A file with names has declarations, which begin with a heading. -/
theorem exists_declarations_cons {e : Extraction} (q : Quotes)
    (hne : (e.timeouts.isEmpty && e.data.isEmpty) = false) :
    ∃ head rest, '(' ∉ head ∧ e.declarations q = ('/' :: head) :: rest := by
  cases ht : e.timeouts with
  | cons p timeouts =>
      refine ⟨_, _, ?_, by
        rw [declarations, Context.definitionLines, ht, declarationLines_eq _ _ (List.cons_ne_nil _ _)]
        rfl⟩
      decide
  | nil =>
      cases hd : e.data with
      | nil => rw [ht, hd] at hne; cases hne
      | cons p data =>
          refine ⟨_, _, ?_, by
            rw [declarations, Context.definitionLines, ht, hd,
              declarationLines_eq _ _ (List.cons_ne_nil _ _)]
            rfl⟩
          decide

/-- The new text of a file with names: its declarations stand where the imports end, behind a blank
line when there are any. -/
theorem newText_eq {e : Extraction} (content : Text)
    (hne : (e.timeouts.isEmpty && e.data.isEmpty) = false) :
    e.newText content = Text.joinLines
      ((Text.lines (e.replaceValues content)).take (importEnd (Text.lines (e.replaceValues content)))
        ++ ((if 0 < importEnd (Text.lines (e.replaceValues content)) then [[]] else []) ++
          e.declarations (CodeStyle.quotesOf content)) ++
        (Text.lines (e.replaceValues content)).drop
          (importEnd (Text.lines (e.replaceValues content)))) := by
  obtain ⟨head, rest, -, hd⟩ := exists_declarations_cons (CodeStyle.quotesOf content) hne
  have hcons : e.declarations (CodeStyle.quotesOf content) ≠ [] := by
    rw [hd]
    exact List.cons_ne_nil _ _
  rw [newText, hne, if_neg Bool.false_ne_true]
  simp only [definitionBlock]
  rw [← List.append_assoc, ← List.append_assoc _ _ (e.declarations _)]
  exact Text.joinLines_congr _ (Text.lines_ne_nil _) hcons (Text.joinLines_lines _) _

/-- The declarations, perhaps behind a blank line, stand between the lines of the replaced text. -/
theorem exists_newText {e : Extraction} (content : Text)
    (hne : (e.timeouts.isEmpty && e.data.isEmpty) = false) :
    ∃ pre blank post, Text.lines (e.replaceValues content) = pre ++ post ∧
      (∀ l ∈ blank, l = []) ∧
      e.newText content = Text.joinLines
        (pre ++ (blank ++ e.declarations (CodeStyle.quotesOf content)) ++ post) := by
  refine ⟨_, _, _, (List.take_append_drop _ _).symm, fun l hl => ?_, newText_eq content hne⟩
  split at hl
  · exact List.mem_singleton.mp hl
  · cases hl

theorem newText_of_isEmpty {e : Extraction} (content : Text)
    (hne : (e.timeouts.isEmpty && e.data.isEmpty) = true) : e.newText content = content := by
  rw [newText, if_pos hne]

theorem mem_declarations_of_mem_data {e : Extraction} (q : Quotes) {p : Text × Text}
    (hp : p ∈ e.data) : declaration p.2 (q.literal p.1) ∈ e.declarations q := by
  refine List.mem_append_right _ ?_
  rw [declarationLines_eq _ _ (List.ne_nil_of_mem hp)]
  exact List.mem_append_left _ (List.mem_cons_of_mem _ (List.mem_map.mpr ⟨p, hp, rfl⟩))

end Extraction

/-! ### The proposed text -/

namespace Proposal

/-- What is proposed is put together from the names, the helpers, the comments and what is
suggested. -/
theorem parts_of_ofText {content path : Text} {context : Context} {p : Proposal}
    (h : ofText content path context = .ok p) : ∃ e, Extraction.ofText content context = .ok e ∧
      p.after = (Comments.add (e.newText content)).1 ∧
      p.context = (Methods.extract content e.context).1 ∧
      p.changes = e.changes ++ (Methods.extract content e.context).2 ++
        Suggestions.selectorChanges content ++ (Comments.add (e.newText content)).2 ++
        Suggestions.namingChanges content := by
  obtain ⟨e, he, rfl⟩ := ofText_eq_ok_iff.mp h
  exact ⟨e, he, rfl, rfl, rfl⟩

theorem after_of_ofText {content path : Text} {context : Context} {p : Proposal}
    (h : ofText content path context = .ok p) : ∃ e, Extraction.ofText content context = .ok e ∧
      p.after = (Comments.add (e.newText content)).1 := by
  obtain ⟨e, he, hafter, -⟩ := parts_of_ofText h
  exact ⟨e, he, hafter⟩

theorem exists_ofText {content : Text} {context : Context} {e : Extraction}
    (he : Extraction.ofText content context = .ok e) (path : Text) :
    ∃ p, ofText content path context = .ok p ∧ p.after = (Comments.add (e.newText content)).1 :=
  ⟨_, ofText_eq_ok_iff.mpr ⟨e, he, rfl⟩, rfl⟩

end Proposal
end SuiteAudit
