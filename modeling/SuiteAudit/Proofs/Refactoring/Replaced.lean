import SuiteAudit.Proofs.Literal.Pairing
import SuiteAudit.Proofs.Literal.WaitCall
import SuiteAudit.Proofs.Pattern.Splice
import SuiteAudit.Proofs.Text.Blanks
import SuiteAudit.Refactoring.Constants

/-! # What names take the place of

Names take the place of the quoted texts that have one, and of nothing else: the new text is the one
with its waits named, with an edit for each replaced text (`replaceValues_eq_splice`).

Whether a text that a name takes the place of is a whole literal of its line depends on how the
marks of the line pair up: it is one exactly when its first mark opens a literal.  So whole literals
are replaced, and nothing besides, exactly when no interval that closes a literal or lies inside one
is chosen (`replacesWholeLiterals_iff`).  Two short literals on a line with a long stretch between
them that reads like test data are enough for the opposite (`gap_is_replaced`). -/

namespace SuiteAudit
namespace Extraction

/-- A text with names in place of its fixed waits, which is what is searched for quoted texts. -/
def waitsNamed (e : Extraction) (content : Text) : Text :=
  Literal.timeoutCall.replaceAll (replaceTimeout e.timeouts) content

/-- The edit for a wait. -/
def waitEdit (e : Extraction) (hit : Hit) : Option Text :=
  (e.timeouts.get? (hit.group 1)).map fun name => Literal.waitStart ++ (name ++ [')'])

theorem waitsNamed_eq_splice (e : Extraction) (content : Text) : e.waitsNamed content =
    Pattern.splice (Pattern.edits e.waitEdit (Literal.timeoutCall.findAll content)) 0 content := by
  rw [← Pattern.replaceAll_eq_splice Literal.timeoutCall_advances, waitsNamed]
  congr 1
  funext hit
  rw [replaceTimeout, waitEdit]
  cases e.timeouts.get? (hit.group 1) with
  | none => rfl
  | some name => exact List.append_assoc _ _ _

/-- The quoted texts that a name takes the place of. -/
def replacedTexts (e : Extraction) (content : Text) : List Hit :=
  (Literal.longText.findAll (e.waitsNamed content)).filter fun hit => e.data.has (hit.group 2)

/-- A name for each quoted text that is replaced. -/
def nameEdits (e : Extraction) (content : Text) : List (Hit × Text) :=
  Pattern.edits (fun hit => e.data.get? (hit.group 2))
    (Literal.longText.findAll (e.waitsNamed content))

theorem replaceValues_eq_splice (e : Extraction) (content : Text) :
    e.replaceValues content = Pattern.splice (e.nameEdits content) 0 (e.waitsNamed content) :=
  Pattern.replaceAll_eq_splice Literal.longText_advances _ _

/-- Without named waits all waits stay. -/
theorem waitsNamed_of_timeouts_nil {e : Extraction} {content : Text} (h : e.timeouts = []) :
    e.waitsNamed content = content :=
  Pattern.replaceAll_eq_self Literal.timeoutCall_advances fun _ _ => by rw [h]; rfl

/-- Without test data all quoted texts stay. -/
theorem replaceValues_of_data_nil {e : Extraction} {content : Text} (h : e.data = []) :
    e.replaceValues content = e.waitsNamed content :=
  Pattern.replaceAll_eq_self Literal.longText_advances fun _ _ => by rw [h]; rfl

/-- The replaced texts are the ones for which there is an edit. -/
theorem map_fst_nameEdits (e : Extraction) (content : Text) :
    (e.nameEdits content).map Prod.fst = e.replacedTexts content := by
  unfold nameEdits replacedTexts
  induction Literal.longText.findAll (e.waitsNamed content) with
  | nil => rfl
  | cons hit hits ih =>
      rw [Pattern.edits_cons, List.map_append, ih, List.filter_cons]
      unfold Table.has
      cases e.data.get? (hit.group 2) <;> rfl

/-- What is checked of the outcome for a fixed text holds of what the outcome is. -/
theorem exists_ok_of_any {ε β : Type} {x : Except ε β} {f : β → Bool}
    (h : x.toOption.any f = true) : ∃ b, x = .ok b ∧ f b = true := by
  cases x with
  | error i => cases h
  | ok b => exact ⟨b, rfl, h⟩

/-! ### Whole literals -/

/-- The text with its waits named is changed at the replaced texts only, and these are all whole
literals of their lines exactly when each chosen interval with a name begins at a mark that opens a
literal. -/
theorem replacesWholeLiterals_iff (e : Extraction) (content : Text) :
    e.replaceValues content = Pattern.splice (e.nameEdits content) 0 (e.waitsNamed content) ∧
    (e.nameEdits content).map Prod.fst = e.replacedTexts content ∧
    ((∀ hit ∈ e.replacedTexts content,
        (hit.offset, hit.text) ∈ Literal.literals (e.waitsNamed content)) ↔
      ∀ i ∈ Literal.chosen (Literal.intervals (e.waitsNamed content)),
        e.data.has i.value = true → i.opens = true) := by
  refine ⟨replaceValues_eq_splice e content, map_fst_nameEdits e content, ?_⟩
  unfold replacedTexts
  rw [Literal.findAll_longText]
  constructor
  · intro hall i hi hname
    refine (Literal.mem_literals_iff_opens hi).mp (hall (Literal.quoteHit i.offset i.mark i.value) ?_)
    exact List.mem_filter.mpr ⟨List.mem_map_of_mem hi, hname⟩
  · intro hall hit hhit
    obtain ⟨hm, hname⟩ := List.mem_filter.mp hhit
    obtain ⟨i, hi, rfl⟩ := List.mem_map.mp hm
    exact (Literal.mem_literals_iff_opens hi).mpr (hall i hi hname)

/-- Two literals of one character with a stretch between them that reads like test data. -/
def gapContent : Text :=
  "test('a', () => \x7b\n  fill('a', password_field_value, 'b');\n\x7d);"

/-- On a line without a backslash, a slanted quote or a comment, the stretch between two literals is
replaced. -/
theorem gap_is_replaced :
    (∀ c ∈ gapContent, c ≠ '\\' ∧ c ≠ '\x60' ∧ c ≠ '/') ∧
    ∃ e, ofText gapContent {} = .ok e ∧ ∃ hit ∈ e.replacedTexts gapContent,
      hit.text = "', password_field_value, '" ∧
      (hit.offset, hit.text) ∉ Literal.literals (e.waitsNamed gapContent) := by
  have h : (ofText gapContent {}).toOption.any (fun e => (e.replacedTexts gapContent).any fun hit =>
      hit.text = "', password_field_value, '" ∧
      (hit.offset, hit.text) ∉ Literal.literals (e.waitsNamed gapContent)) = true := by
    decide +kernel
  refine ⟨Text.forall_mem_of_all (by decide), ?_⟩
  obtain ⟨e, he, h⟩ := exists_ok_of_any h
  obtain ⟨hit, hm, hh⟩ := List.any_eq_true.mp h
  exact ⟨e, he, hit, hm, of_decide_eq_true hh⟩

end Extraction
end SuiteAudit
