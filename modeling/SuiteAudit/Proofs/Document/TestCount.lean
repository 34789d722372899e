import SuiteAudit.Document.Basic
import SuiteAudit.Maintainability.Metrics
import SuiteAudit.Proofs.Source.CallLines
import SuiteAudit.Proofs.Source.Regions

/-! # Documented and counted tests

The metrics of a file count the calls in its text; its document lists the test cases that are found
in its lines.  The blocks of a scan share no line (`Tiles.length_flatMap_le`) and a case opens on a
line with a call, so the cases of a file, and those of its suites, are at most as many as the lines
with calls.  There are at most as many such lines as calls, so no file has more documented tests than
counted ones (`documented_le_counted`). -/

namespace SuiteAudit

variable {opening : Opening} {n : Int} {lines : List Text} {regions : List Region}

/-- When each block gives at most as many results as certain of its lines, all blocks give at most as
many as there are such lines. -/
theorem Tiles.length_flatMap_le {α : Type} {p : Text → Bool} {f : Block → List α}
    (h : Tiles opening n lines regions)
    (hf : ∀ b : Block, b.Opens opening → (f b).length ≤ b.lines.countP p) :
    ((blocksOf regions).flatMap f).length ≤ lines.countP p := by
  induction h with
  | nil => exact Nat.le_refl 0
  | idle _ _ ih =>
      rw [List.countP_cons]
      omega
  | @region n r rest regions _ hopens _ _ _ ih =>
      rw [List.countP_append]
      cases r with
      | block b =>
          have hb := hf b hopens
          have hblocks : blocksOf (.block b :: regions) = b :: blocksOf regions := rfl
          rw [hblocks, List.flatMap_cons, List.length_append]
          simp only [Region.span]
          omega
      | dropped b reason =>
          have hblocks : blocksOf (.dropped b reason :: regions) = blocksOf regions := rfl
          rw [hblocks]
          omega

theorem Block.Opens.countP_isOn_pos {b : Block} (h : b.Opens opening) :
    0 < b.lines.countP opening.isOn := by
  obtain ⟨line, rest, e, hname⟩ := h.first
  have hon : opening.isOn line = true := Opening.isOn_iff.mpr (by simp [hname])
  rw [e, List.countP_cons_of_pos hon]
  omega

/-- There are at most as many blocks as lines on which one may open. -/
theorem length_blocks_le (opening : Opening) (n : Int) (lines : List Text) :
    (blocksOf (scan opening n lines)).length ≤ lines.countP opening.isOn := by
  have h := (tiles_scan opening n lines).length_flatMap_le (f := fun b => [b])
    fun b hb => hb.countP_isOn_pos
  simpa using h

/-- The suites of a file have at most as many cases as there are lines on which one may open. -/
theorem length_suiteCases_le (content : Text) : ((suitesOf content).flatMap Suite.cases).length ≤
    (Text.lines content).countP Opening.case.isOn := by
  have h := (tiles_scan .suite 1 (Text.lines content)).length_flatMap_le
    (f := fun b => (Suite.ofBlock b).cases) fun b _ => by
      have hinner := length_blocks_le .case (b.startLine + 1) b.lines.tail
      exact Nat.le_trans hinner ((List.tail_sublist b.lines).countP_le ..)
  rw [suitesOf, List.flatMap_map]
  exact h

/-- A document lists the cases of the suites, or all cases where there is no suite. -/
theorem Document.testCount_ofText_le (content path : Text) (now : Timestamp) :
    (Document.ofText content path now).testCount ≤
      (Text.lines content).countP Opening.case.isOn := by
  unfold Document.testCount Document.ofText Document.suiteDocs
  cases hsuites : suitesOf content with
  | nil =>
      have hcases : (casesOf content).length ≤ _ := length_blocks_le .case 1 (Text.lines content)
      simpa using hcases
  | cons s rest =>
      have hcases := length_suiteCases_le content
      rw [hsuites] at hcases
      simp only [List.flatMap_map]
      rwa [← List.map_flatMap, List.length_map]

theorem Metrics.testCount_of_ofText {content path : Text} {thresholds : Thresholds} {m : Metrics}
    (h : Metrics.ofText content path thresholds = .ok m) : m.testCount = countCaseCalls content := by
  obtain ⟨smells, -, -, rfl⟩ := Metrics.ofText_eq_ok_iff.mp h
  rfl

/-- A file has at most as many cases, and at most as many documented tests, as calls that are counted. -/
theorem documented_le_counted (content path : Text) (now : Timestamp) (thresholds : Thresholds) :
    (casesOf content).length ≤ countCaseCalls content ∧
    (Document.ofText content path now).testCount ≤ countCaseCalls content ∧
    ∀ m, Metrics.ofText content path thresholds = .ok m →
      ((Document.ofText content path now).testCount : Int) ≤ m.testCount := by
  have hcalls := Opening.countP_isOn_le content
  have hcases := length_blocks_le .case 1 (Text.lines content)
  have htests := Document.testCount_ofText_le content path now
  refine ⟨Nat.le_trans hcases hcalls, Nat.le_trans htests hcalls, fun m hm => ?_⟩
  have hcount := Metrics.testCount_of_ofText hm
  omega

/-- A suite with a case and with a call that goes over a line end. -/
def halfContent : Text :=
  "describe('A', () => \x7b\n  test('a', () => \x7b\n  \x7d);\n  it(\n    'b', () => \x7b\x7d);\n\x7d);"

/-- The document of that file. -/
def halfDocument : Document := .ofText halfContent [] { year := 2024, month := 5, day := 1 }

theorem half_is_documented : ∃ m, Metrics.ofText halfContent [] {} = .ok m ∧ m.testCount = 2 ∧
    halfDocument.testCount = 1 ∧ (halfDocument.testCount : Int) ≤ m.testCount := by
  have h : (Metrics.ofText halfContent [] {}).toOption.any (fun m => m.testCount = 2) = true := by
    decide +kernel
  cases hm : Metrics.ofText halfContent [] {} with
  | error e =>
      rw [hm] at h
      cases h
  | ok m =>
      rw [hm] at h
      exact ⟨m, rfl, of_decide_eq_true h, by decide +kernel,
        (documented_le_counted halfContent [] _ {}).2.2 m hm⟩

end SuiteAudit
