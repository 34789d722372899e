import SuiteAudit.Proofs.Refactoring.Definitions
import SuiteAudit.Proofs.Refactoring.Imports
import SuiteAudit.Proofs.Refactoring.Replaced

/-! # Where declared names are in scope

Declarations are in scope where their names are used when they stand outside of all braces and above
all lines with a name (`Extraction.InScope`).  They stand behind the last import before the first
test, so this is so exactly when the lines up to there have as many opening as closing braces and
hold no name (`Extraction.inScope_iff`).  An import within a function, which is no statement at the
top of the file, counts like any other: the declarations then go into that function
(`Extraction.declared_in_function`). -/

namespace SuiteAudit
namespace Extraction

/-- The characters of a text with names in place of its values; those of the names, and of the calls
around those of waits, are marked. -/
def cells (e : Extraction) (content : Text) : List (Char × Bool) :=
  Pattern.paint (e.nameEdits content) 0
    (Pattern.paint (Pattern.edits e.waitEdit (Literal.timeoutCall.findAll content)) 0
      (content.map (·, false)))

theorem map_fst_cells (e : Extraction) (content : Text) :
    (e.cells content).map Prod.fst = e.replaceValues content := by
  have hcontent : (content.map fun c => (c, false)).map Prod.fst = content := by
    rw [List.map_map]
    exact List.map_id content
  rw [cells, Pattern.map_fst_paint, Pattern.map_fst_paint, hcontent, ← waitsNamed_eq_splice,
    ← replaceValues_eq_splice]

/-- The indices of the lines with a marked character, for each such character, when the first line
has the index `i`. -/
def markedFrom : Nat → List (Char × Bool) → List Nat
  | _, [] => []
  | i, (c, marked) :: rest =>
    (if marked then [i] else []) ++ markedFrom (if c = '\n' then i + 1 else i) rest

/-- The indices of the lines on which names were put in place of values. -/
def namedLines (e : Extraction) (content : Text) : List Nat := markedFrom 0 (e.cells content)

/-- The depth of braces behind some lines. -/
def depthAfter : List Text → Int
  | [] => 0
  | line :: rest => netBraces line + depthAfter rest

/-- The declarations of a file go between lines outside of all braces, and all lines with a name
follow them. -/
structure InScope (e : Extraction) (content : Text) : Prop where
  outside : depthAfter ((Text.lines (e.replaceValues content)).take
    (importEnd (Text.lines (e.replaceValues content)))) = 0
  above : ∀ i ∈ e.namedLines content, importEnd (Text.lines (e.replaceValues content)) ≤ i

instance (e : Extraction) (content : Text) : Decidable (e.InScope content) :=
  decidable_of_iff (_ ∧ _) ⟨fun h => ⟨h.1, h.2⟩, fun h => ⟨h.outside, h.above⟩⟩

/-- The declarations of a file with names stand where its imports end; the marked text is the one
that they are put into.  They are in scope exactly when the lines up to the last import before the
first test have as many opening as closing braces and none of them has a name. -/
theorem inScope_iff {e : Extraction} (content : Text)
    (hne : (e.timeouts.isEmpty && e.data.isEmpty) = false) :
    (∃ blank, (∀ l ∈ blank, l = []) ∧ e.newText content = Text.joinLines
      ((Text.lines (e.replaceValues content)).take
          (importEnd (Text.lines (e.replaceValues content))) ++
        (blank ++ e.declarations (CodeStyle.quotesOf content)) ++
        (Text.lines (e.replaceValues content)).drop
          (importEnd (Text.lines (e.replaceValues content))))) ∧
    (e.cells content).map Prod.fst = e.replaceValues content ∧
    (e.InScope content ↔ ∃ before after,
      Text.lines (e.replaceValues content) = before ++ after ∧ ImportsEnd before after ∧
      depthAfter before = 0 ∧ ∀ i ∈ e.namedLines content, before.length ≤ i) := by
  refine ⟨⟨_, fun l hl => ?_, newText_eq content hne⟩, map_fst_cells e content, ?_⟩
  · split at hl
    · exact List.mem_singleton.mp hl
    · cases hl
  obtain ⟨before, after, hsplit, himports⟩ :=
    exists_importsEnd (Text.lines (e.replaceValues content))
  constructor
  · rintro ⟨houtside, habove⟩
    rw [hsplit, himports.importEnd_eq] at habove
    rw [hsplit, himports.importEnd_eq, List.take_left] at houtside
    exact ⟨before, after, hsplit, himports, houtside, habove⟩
  · rintro ⟨before', after', hsplit', himports', houtside, habove⟩
    refine ⟨?_, ?_⟩
    · rwa [hsplit', himports'.importEnd_eq, List.take_left]
    · rwa [hsplit', himports'.importEnd_eq]

/-- A file whose one import stands at its top. -/
def importContent : Text :=
  "import \x7b test \x7d from '@playwright/test';\ntest('a', async () => \x7b\n" ++
    "  await page.waitForTimeout(5000);\n\x7d);"

theorem declared_after_import : ∃ e, ofText importContent {} = .ok e ∧ e.InScope importContent ∧
    ∃ before after, Text.lines (e.replaceValues importContent) = before ++ after ∧
      ImportsEnd before after ∧ depthAfter before = 0 ∧
      ∀ i ∈ e.namedLines importContent, before.length ≤ i := by
  have h : (ofText importContent {}).toOption.any (fun e =>
      (e.timeouts.isEmpty && e.data.isEmpty) = false ∧ e.InScope importContent) = true := by
    decide +kernel
  obtain ⟨e, he, h⟩ := exists_ok_of_any h
  obtain ⟨hne, hscope⟩ := of_decide_eq_true h
  exact ⟨e, he, hscope, (inScope_iff importContent hne).2.2.mp hscope⟩

/-- A file with an import within a function that waits, and a test that waits as long. -/
def innerImportContent : Text :=
  "async function load(page) \x7b\n  await page.waitForTimeout(5000);\n" ++
    "  import('./pages/login');\n\x7d\ntest('a', async (\x7b page \x7d) => \x7b\n" ++
    "  await page.waitForTimeout(5000);\n\x7d);"

/-- All braces of that file are closed, but its declarations go into the function, below the first
line that uses them. -/
theorem declared_in_function : ∃ e, ofText innerImportContent {} = .ok e ∧
    depthAfter (Text.lines innerImportContent) = 0 ∧
    importEnd (Text.lines (e.replaceValues innerImportContent)) = 3 ∧
    depthAfter ((Text.lines (e.replaceValues innerImportContent)).take 3) = 1 ∧
    1 ∈ e.namedLines innerImportContent ∧ ¬ e.InScope innerImportContent := by
  have h : (ofText innerImportContent {}).toOption.any (fun e =>
      depthAfter (Text.lines innerImportContent) = 0 ∧
      importEnd (Text.lines (e.replaceValues innerImportContent)) = 3 ∧
      depthAfter ((Text.lines (e.replaceValues innerImportContent)).take 3) = 1 ∧
      1 ∈ e.namedLines innerImportContent ∧ ¬ e.InScope innerImportContent) = true := by
    decide +kernel
  obtain ⟨e, he, h⟩ := exists_ok_of_any h
  exact ⟨e, he, of_decide_eq_true h⟩

end Extraction
end SuiteAudit
