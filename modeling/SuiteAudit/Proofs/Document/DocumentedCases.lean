import Mathlib.Data.List.Sort
import SuiteAudit.Document.Basic
import SuiteAudit.Proofs.Source.CutScan
import SuiteAudit.Proofs.Source.NestedScans

/-! # Documented test cases

A document lists the cases of a file without suites, and else the cases of its suites.  The suites
are looked for by a scan of their own, so a suite may lie in a region of test cases, and a test case
outside all suites.  A case of the file that lies in a suite is one of this suite
(`mem_cases_of_nestedIn`), and a case of a suite is one of the file unless the suite lies in a
region of test cases (`mem_casesOf_or_within`).  So the document lists each case of the file once in
a file without suites, and else just when these two layouts do not occur (`documented_once_iff`). -/

namespace SuiteAudit

variable {content : Text} {s t : Suite}

/-! ### Where the cases of a suite lie -/

theorem block_mem_of_mem_suitesOf (hs : s ∈ suitesOf content) :
    .block s.block ∈ suiteRegions content := by
  obtain ⟨b, hb, rfl⟩ := List.mem_map.mp hs
  exact mem_blocksOf.mp hb

/-- The suites of a file are in order and share no line. -/
theorem pairwise_suitesOf (content : Text) : (suitesOf content).Pairwise fun s t =>
    s.block.startLine ≤ s.block.endLine ∧ s.block.endLine < t.block.startLine := by
  have h := (tiles_scan .suite 1 (Text.lines content)).pairwise_blocks
  exact List.pairwise_map.mpr h

/-- Two suites that share a line are one. -/
theorem eq_of_shared_line (hs : s ∈ suitesOf content) (ht : t ∈ suitesOf content) {n : Int}
    (hsn : (Region.block s.block).Covers n) (htn : (Region.block t.block).Covers n) : s = t := by
  obtain ⟨b, hb, rfl⟩ := List.mem_map.mp hs
  obtain ⟨c, hc, rfl⟩ := List.mem_map.mp ht
  have h := (tiles_scan .suite 1 (Text.lines content)).eq_of_covers (mem_blocksOf.mp hb)
    (mem_blocksOf.mp hc) hsn htn
  rw [Region.block.inj h]

theorem nestedIn_of_mem_cases (hs : s ∈ suitesOf content) {c : Block} (hc : c ∈ s.cases) :
    c.NestedIn s.block ∧ c.startLine ≤ c.endLine := by
  obtain ⟨-, hstart, hle, hend⟩ := within_of_mem_cases hs hc
  exact ⟨⟨hstart, hend⟩, hle⟩

theorem pairwise_casesOf (content : Text) :
    (casesOf content).Pairwise fun b c => b.startLine < c.startLine := by
  refine (tiles_scan .case 1 (Text.lines content)).pairwise_blocks.imp fun {b c} h => ?_
  omega

/-- The cases of all suites are in order. -/
theorem pairwise_suiteCases (content : Text) : ((suitesOf content).flatMap Suite.cases).Pairwise
    fun b c => b.startLine < c.startLine := by
  refine List.pairwise_flatMap.mpr ⟨fun s hs => ?_, ?_⟩
  · obtain ⟨upto, inner, -, -, -, -, hcases⟩ := exists_cut_of_mem_suitesOf hs
    rw [hcases]
    refine (tiles_scan .case _ inner).pairwise_blocks.imp fun {b c} h => ?_
    omega
  · refine (List.Pairwise.and_mem.mp (pairwise_suitesOf content)).imp ?_
    rintro s t ⟨hs, ht, -, hlt⟩ b hb c hc
    obtain ⟨⟨-, hbs⟩, hb⟩ := nestedIn_of_mem_cases hs hb
    obtain ⟨⟨hct, -⟩, -⟩ := nestedIn_of_mem_cases ht hc
    omega

/-- What a scan for cases finds behind the first line of a suite, unless the suite lies in a region
of test cases. -/
theorem cases_eq_or_within (hs : s ∈ suitesOf content) :
    (s.cases = (casesOf content).filter fun c =>
      s.block.startLine < c.startLine ∧ c.endLine ≤ s.block.endLine) ∨
    ∃ r ∈ caseRegions content 1, s.block.Within r.span := by
  obtain ⟨upto, inner, behind, hlines, hstart, hend, hcases⟩ := exists_cut_of_mem_suitesOf hs
  cases hopen : openAfter .case 1 none upto with
  | none =>
      left
      have hmiddle := blocksOf_scan_middle (b := inner) hopen behind
      rw [← hlines] at hmiddle
      rw [hcases, ← hmiddle]
      refine List.filter_congr fun c _ => ?_
      rw [decide_eq_decide, hend, hstart]
      omega
  | some o =>
      right
      obtain ⟨r, hr, hc⟩ := exists_covers_before hopen (inner ++ behind)
      rw [← hlines] at hr
      have hcovers : r.Covers s.block.startLine := by
        rw [hstart]
        exact ⟨by have := hc.1; omega, by have := hc.2; omega⟩
      have hle := (tiles_scan .case 1 (Text.lines content)).endLine_le
        (tiles_scan .suite 1 (Text.lines content)) hr (block_mem_of_mem_suitesOf hs) hcovers
      exact ⟨r, hr, hcovers.1, hle⟩

/-- A case of the file lies in no other region of test cases. -/
theorem eq_block_of_covers {c : Block} (hc : c ∈ casesOf content) {r : Region}
    (hr : r ∈ caseRegions content 1) (h : r.Covers c.startLine) : r = .block c := by
  have htiles := tiles_scan .case 1 (Text.lines content)
  have hmem := mem_blocksOf.mp hc
  have hle := (htiles.of_mem hmem).2.1.startLine_le
  exact htiles.eq_of_covers hr hmem h ⟨Int.le_refl _, hle⟩

/-- A case of the file that lies in a suite behind its first line is a case of the suite. -/
theorem mem_cases_of_nestedIn (hs : s ∈ suitesOf content) {c : Block} (hc : c ∈ casesOf content)
    (hcs : c.NestedIn s.block) : c ∈ s.cases := by
  rcases cases_eq_or_within hs with h | ⟨r, hr, hlow, hhigh⟩
  · rw [h, List.mem_filter, decide_eq_true_eq]
    exact ⟨hc, hcs⟩
  · -- such a region holds the case as well, so it is the case, which begins behind the suite
    have hle := ((tiles_scan .case 1 (Text.lines content)).of_mem
      (mem_blocksOf.mp hc)).2.1.startLine_le
    simp only [Region.span] at hle
    obtain ⟨hstart, hend⟩ := hcs
    have hblock : r = .block c := eq_block_of_covers hc hr ⟨by omega, by omega⟩
    rw [hblock] at hlow
    simp only [Region.span] at hlow
    omega

/-- A case of a suite is a case of the file, unless the suite lies in a region of test cases. -/
theorem mem_casesOf_or_within (hs : s ∈ suitesOf content) {c : Block} (hc : c ∈ s.cases) :
    c ∈ casesOf content ∨ ∃ r ∈ caseRegions content 1, s.block.Within r.span := by
  refine (cases_eq_or_within hs).imp_left fun h => ?_
  rw [h] at hc
  exact List.mem_of_mem_filter hc

/-! ### What a document lists -/

namespace Document

/-- The lines on which the test cases begin that a document lists. -/
def startLines (d : Document) : List Int := (d.suites.flatMap (·.tests)).map (·.startLine)

variable (content path : Text) (now : Timestamp)

theorem startLines_of_no_suites (h : suitesOf content = []) :
    (ofText content path now).startLines = (casesOf content).map (·.startLine) := by
  simp [startLines, ofText, suiteDocs, h, caseDoc]

theorem startLines_of_suites (h : suitesOf content ≠ []) : (ofText content path now).startLines =
    ((suitesOf content).flatMap Suite.cases).map (·.startLine) := by
  unfold startLines ofText suiteDocs
  cases hs : suitesOf content with
  | nil => exact absurd hs h
  | cons s rest =>
      have hstart : (·.startLine) ∘ caseDoc (Text.lines content) = (·.startLine) := rfl
      simp [List.flatMap_map, List.map_flatMap, hstart]

/-- No case is listed twice. -/
theorem pairwise_startLines : (ofText content path now).startLines.Pairwise (· < ·) := by
  by_cases h : suitesOf content = []
  · rw [startLines_of_no_suites content path now h]
    exact List.pairwise_map.mpr (pairwise_casesOf content)
  · rw [startLines_of_suites content path now h]
    exact List.pairwise_map.mpr (pairwise_suiteCases content)

end Document

/-- Each case of a file lies in a suite behind its first line, and no suite with cases lies in a
region of test cases that is dropped. -/
structure CasesInSuites (content : Text) : Prop where
  nested : ∀ c ∈ casesOf content, ∃ s ∈ suitesOf content, c.NestedIn s.block
  dropped : ∀ s ∈ suitesOf content, ∀ b reason, .dropped b reason ∈ caseRegions content 1 →
    s.block.Within b → s.cases = []

/-- In such a file the cases of the suites are those of the file. -/
theorem CasesInSuites.mem_iff (h : CasesInSuites content) (c : Block) :
    c ∈ (suitesOf content).flatMap Suite.cases ↔ c ∈ casesOf content := by
  rw [List.mem_flatMap]
  constructor
  · rintro ⟨s, hs, hc⟩
    rcases mem_casesOf_or_within hs hc with hmem | ⟨r, hr, hlow, hhigh⟩
    · exact hmem
    cases r with
    | dropped b reason =>
        rw [h.dropped s hs b reason hr ⟨hlow, hhigh⟩] at hc
        cases hc
    | block b =>
        -- the suite around that case would share the first line of `s`
        obtain ⟨t, ht, hbt, hbt'⟩ := h.nested b (mem_blocksOf.mpr hr)
        have hle := ((tiles_scan .suite 1 (Text.lines content)).of_mem
          (block_mem_of_mem_suitesOf hs)).2.1.startLine_le
        simp only [Region.span] at hlow hhigh hle
        have hst : s = t := eq_of_shared_line hs ht (n := s.block.startLine)
          ⟨Int.le_refl _, hle⟩ ⟨by simp only [Region.span]; omega, by simp only [Region.span]; omega⟩
        rw [hst] at hlow
        omega
  · intro hc
    obtain ⟨s, hs, hcs⟩ := h.nested c hc
    exact ⟨s, hs, mem_cases_of_nestedIn hs hc hcs⟩

/-- Only in such a file do the cases of the suites begin on the same lines as those of the file. -/
theorem casesInSuites_of_startLines (h : ∀ n, (∃ s ∈ suitesOf content, ∃ c ∈ s.cases,
    c.startLine = n) ↔ ∃ c ∈ casesOf content, c.startLine = n) : CasesInSuites content where
  nested := fun c hc => by
    obtain ⟨s, hs, c', hc', hstart⟩ := (h c.startLine).mpr ⟨c, hc, rfl⟩
    obtain ⟨⟨hlow, hhigh⟩, hle⟩ := nestedIn_of_mem_cases hs hc'
    have hcovers : (Region.block s.block).Covers c.startLine :=
      ⟨by simp only [Region.span]; omega, by simp only [Region.span]; omega⟩
    have hend := (tiles_scan .suite 1 (Text.lines content)).endLine_le
      (tiles_scan .case 1 (Text.lines content)) (block_mem_of_mem_suitesOf hs) (mem_blocksOf.mp hc)
      hcovers
    exact ⟨s, hs, by omega, hend⟩
  dropped := fun s hs b reason hb hwithin => by
    refine List.eq_nil_iff_forall_not_mem.mpr fun c' hc' => ?_
    obtain ⟨c, hc, hstart⟩ := (h c'.startLine).mp ⟨s, hs, c', hc', rfl⟩
    obtain ⟨⟨hlow, hhigh⟩, hle⟩ := nestedIn_of_mem_cases hs hc'
    obtain ⟨hbs, hbe⟩ := hwithin
    have hcovers : (Region.dropped b reason).Covers c.startLine :=
      ⟨by simp only [Region.span]; omega, by simp only [Region.span]; omega⟩
    cases eq_block_of_covers hc hb hcovers

/-- A document lists its cases in order, each once.  They are just the cases of the file when the
file has no suites or all its cases lie in them, and else they are not. -/
theorem documented_once_iff (content path : Text) (now : Timestamp) :
    (Document.ofText content path now).startLines.Pairwise (· < ·) ∧
    ((Document.ofText content path now).startLines = (casesOf content).map (·.startLine) ↔
      suitesOf content = [] ∨ CasesInSuites content) := by
  have hpairwise := Document.pairwise_startLines content path now
  refine ⟨hpairwise, ?_⟩
  by_cases hsuites : suitesOf content = []
  · simp only [Document.startLines_of_no_suites content path now hsuites, hsuites, true_or]
  rw [Document.startLines_of_suites content path now hsuites] at hpairwise ⊢
  simp only [hsuites, false_or]
  constructor
  · intro h
    refine casesInSuites_of_startLines fun n => ?_
    rw [← List.mem_map, ← h, List.mem_map]
    simp only [List.mem_flatMap, ← exists_and_right, and_assoc]
    rw [exists_comm]
    simp only [exists_and_left]
  · intro h
    have hcases : ((casesOf content).map (·.startLine)).Pairwise (· < ·) :=
      List.pairwise_map.mpr (pairwise_casesOf content)
    refine hpairwise.eq_of_mem_iff hcases fun n => ?_
    simp only [List.mem_map, h.mem_iff]

/-- A suite with a case and a case behind it. -/
def besideContent : Text :=
  "describe('A', () => \x7b\n  test('a', () => \x7b\n  \x7d);\n\x7d);\ntest('b', () => \x7b\n\x7d);"

/-- A case that is not closed, and in it a suite with a case. -/
def enclosedContent : Text :=
  "test('a', () => \x7b\ndescribe('B', () => \x7b\n  test('b', () => \x7b\n  \x7d);\n\x7d);"

/-- The case behind the suite is not listed, and one is listed that is no case of its file. -/
theorem documented_cases_differ :
    (Document.ofText besideContent [] { year := 2024, month := 5, day := 1 }).startLines = [2] ∧
    (casesOf besideContent).map (·.startLine) = [2, 5] ∧
    (Document.ofText enclosedContent [] { year := 2024, month := 5, day := 1 }).startLines = [3] ∧
    (casesOf enclosedContent).map (·.startLine) = [] := by
  decide +kernel

end SuiteAudit
