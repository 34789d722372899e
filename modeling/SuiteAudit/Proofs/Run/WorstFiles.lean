import SuiteAudit.Proofs.Number.Order
import SuiteAudit.Proofs.Ranking
import SuiteAudit.Run.Report

/-! # Files most in need of work

The summary counts the files below the limit of the analysis, and these are the files that are to be
rewritten (`Metrics.mem_suggestionsFor_iff`).  The report of a run lists the first five of those below
a limit of its own (`RunSummary.lists_worstFiles`).  Files below a lower limit come first among those
below a higher one (`prefix_byIndex`), so the two agree exactly when as many files are below the one
limit as below the other, or at least five below each (`MaintainabilityReport.lists_counted_iff`). -/

namespace SuiteAudit

open Markdown

namespace Metrics

/-- Whether the index of a file is below a limit. -/
def isBelow (limit : Int) (m : Metrics) : Bool := m.maintainabilityIndex < .ofWhole limit

/-- Whether the index of a file is at most that of another one. -/
def isNoBetter (a b : Metrics) : Bool := a.maintainabilityIndex ≤ b.maintainabilityIndex

def rewriteAdvice : Text := "Consider rewriting the whole test file for maintainability"

variable {m a b : Metrics} {limit low high : Int} {thresholds : Thresholds} {files : List Metrics}

theorem isBelow_iff : m.isBelow limit = true ↔ m.maintainabilityIndex < .ofWhole limit :=
  decide_eq_true_iff

theorem isNoBetter_iff :
    isNoBetter a b = true ↔ a.maintainabilityIndex ≤ b.maintainabilityIndex :=
  decide_eq_true_iff

/-- A file is to be rewritten exactly when its index is below the limit of the analysis. -/
theorem mem_suggestionsFor_iff : rewriteAdvice ∈ m.suggestionsFor thresholds ↔
    m.isBelow thresholds.attentionIndex = true := by
  have hif (c : Bool) (advice : Text) :
      rewriteAdvice ∈ Text.linesIf c [advice] ↔ c = true ∧ rewriteAdvice = advice := by
    cases c <;> simp [Text.linesIf]
  rw [suggestionsFor]
  -- the other pieces of advice are other texts
  have hne : ∀ advice ∈ ([
      "Split long tests into several smaller tests",
      "Extract duplicated code into a shared helper",
      "Simplify complex test logic; introduce a page-object abstraction",
      "Extract hard-coded values into constants or configuration",
      "Simplify complex selectors and logic",
      "Add explanatory comments to complex logic"] : List String),
      (rewriteAdvice = advice.toList) = False := by
    decide +kernel
  simp only [List.mem_append, hif]
  simp only [List.forall_mem_cons] at hne
  simp only [hne, and_false, false_or]
  exact ⟨And.left, fun h => ⟨h, rfl⟩⟩

/-! ### The order of the files -/

theorem isBelow_of_isNoBetter (hab : isNoBetter a b = true) (hb : b.isBelow limit = true) :
    a.isBelow limit = true :=
  isBelow_iff.mpr (Extended.lt_of_le_of_lt (isNoBetter_iff.mp hab) (isBelow_iff.mp hb))

theorem isBelow_mono (hle : low ≤ high) (h : m.isBelow low = true) : m.isBelow high = true :=
  isBelow_iff.mpr (Extended.lt_of_lt_of_le (isBelow_iff.mp h) (Extended.ofWhole_le_iff.mpr hle))

theorem isNoBetter_total (ha : a.isBelow limit = true) (hb : b.isBelow limit = true) :
    isNoBetter a b = true ∨ isNoBetter b a = true := by
  rw [isNoBetter_iff, isNoBetter_iff]
  exact Extended.le_total (Extended.ne_undefined_of_lt (isBelow_iff.mp ha))
    (Extended.ne_undefined_of_lt (isBelow_iff.mp hb))

end Metrics

namespace MaintainabilityReport

open Metrics

variable {files : List Metrics} {low high limit : Int}

/-- Files below a limit are ranked by their index. -/
theorem isRanking_byIndex (files : List Metrics) (limit : Int) :
    IsRanking isNoBetter (files.filter (isBelow limit)) (byIndex (files.filter (isBelow limit))) := by
  refine isRanking_mergeSort (fun a b c hab hbc => ?_) fun a ha b hb => ?_
  · exact isNoBetter_iff.mpr
      (Extended.le_trans (isNoBetter_iff.mp hab) (isNoBetter_iff.mp hbc))
  · rw [Bool.or_eq_true]
    exact isNoBetter_total (List.mem_filter.mp ha).2 (List.mem_filter.mp hb).2

/-- The files below a limit come first among those below a higher one. -/
theorem prefix_byIndex (hle : low ≤ high) :
    byIndex (files.filter (isBelow low)) <+: byIndex (files.filter (isBelow high)) := by
  have hlow := isRanking_byIndex files low
  have hfilter : files.filter (isBelow low) = (files.filter (isBelow high)).filter (isBelow low) := by
    rw [List.filter_filter]
    refine List.filter_congr fun m _ => ?_
    cases h : m.isBelow low with
    | false => rfl
    | true => rw [isBelow_mono hle h, Bool.and_self]
  rw [hfilter] at hlow
  rw [hfilter]
  refine (isRanking_byIndex files high).prefix_of_filter (p := isBelow low) (fun m hm => ?_)
    (fun _ _ => isBelow_of_isNoBetter) hlow
  have hm := (List.mem_filter.mp hm).2
  exact (isNoBetter_total hm hm).elim id id

theorem length_byIndex (files : List Metrics) : (byIndex files).length = files.length :=
  (List.mergeSort_perm files _).length_eq

/-- A list and one that begins with it have the same first entries when they are equally long or both
long enough. -/
theorem take_eq_take_iff_of_prefix {α : Type} {s t : List α} (h : s <+: t) (n : Nat) :
    s.take n = t.take n ↔ s.length = t.length ∨ n ≤ s.length ∧ n ≤ t.length := by
  obtain ⟨u, rfl⟩ := h
  constructor
  · intro he
    have hlen := congrArg List.length he
    simp only [List.length_take, List.length_append] at hlen ⊢
    omega
  · rintro (he | ⟨hs, -⟩)
    · rw [List.length_append] at he
      rw [List.eq_nil_of_length_eq_zero (l := u) (by omega), List.append_nil]
    · rw [List.take_append_of_le_length hs]

theorem take_byIndex_eq_iff (files : List Metrics) (low high : Int) (n : Nat) :
    (byIndex (files.filter (isBelow low))).take n = (byIndex (files.filter (isBelow high))).take n ↔
      files.countP (isBelow low) = files.countP (isBelow high) ∨
        n ≤ files.countP (isBelow low) ∧ n ≤ files.countP (isBelow high) := by
  have hlength (limit : Int) :
      (byIndex (files.filter (isBelow limit))).length = files.countP (isBelow limit) := by
    rw [length_byIndex, List.countP_eq_length_filter]
  rw [← hlength low, ← hlength high]
  rcases Int.le_total low high with h | h
  · exact take_eq_take_iff_of_prefix (prefix_byIndex h) n
  · rw [eq_comm, take_eq_take_iff_of_prefix (prefix_byIndex h) n, eq_comm, and_comm]

end MaintainabilityReport

/-! ### The report of a run -/

namespace RunSummary

variable (run : RunSummary) (startedAt : Timestamp) (folder : Location)

/-- The report of a run down to its summaries. -/
def linesAbove : List Text :=
  titled "# Test Maintainability Report"
    [entry "Generated" startedAt.text, entry "Test directory" (code run.testDirectory),
      entry "Files discovered" (Text.ofInt run.filesDiscovered), []] ++
  titled "## Summary" run.phaseSummaries

/-- The report of a run from what was applied on. -/
def linesBelow : List Text :=
  sectionOf "## Applied refactorings" ApplyOutcome.reportLine run.applied ++
  run.skippedLines ++ run.failureLines ++
  sectionOf "## Pipeline errors" item run.errors ++
  sectionLines "## Generated files"
    (run.artifacts.map fun path => item (code (run.artifactName folder path)))

/-- The report of the run lists these files as most in need of work, between its summaries and what
was applied. -/
def Lists (r : MaintainabilityReport) (files : List Metrics) : Prop :=
  run.report startedAt folder (some r) = Text.joinLines (run.linesAbove startedAt ++
    sectionOf "## Files most in need of work" MaintainabilityReport.worstFileLine files ++
    run.linesBelow folder)

theorem lists_worstFiles (r : MaintainabilityReport) :
    run.Lists startedAt folder r r.worstFiles := by
  simp only [Lists, report, linesAbove, linesBelow, List.append_assoc]
  rfl

end RunSummary

namespace MaintainabilityReport

open Metrics

/-- The files that are counted as needing attention are those that are to be rewritten.  The report
lists the first five of the files below 60 by their index, ties in the order of the files; these are
the first five of the counted ones exactly when as many files are counted as are below 60, or five or
more of each. -/
theorem lists_counted_iff (thresholds : Thresholds) (files : List Metrics)
    (failures : List FileFailure) :
    let r := ofFiles thresholds files failures
    let toRewrite := files.filter fun m => decide (rewriteAdvice ∈ m.suggestionsFor thresholds)
    (∀ m ∈ files, needsAttention thresholds m = true ↔
      rewriteAdvice ∈ m.suggestionsFor thresholds) ∧
    r.summary.filesNeedingAttention = toRewrite.length ∧
    ∃ listed counted, IsRanking isNoBetter (files.filter (isBelow 60)) listed ∧
      IsRanking isNoBetter toRewrite counted ∧
      (∀ run startedAt folder, RunSummary.Lists run startedAt folder r (listed.take 5)) ∧
      (listed.take 5 = counted.take 5 ↔
        files.countP (isBelow 60) = toRewrite.length ∨
          5 ≤ files.countP (isBelow 60) ∧ 5 ≤ toRewrite.length) := by
  intro r toRewrite
  have hfilter : toRewrite = files.filter (isBelow thresholds.attentionIndex) := by
    refine List.filter_congr fun m _ => ?_
    rw [Bool.eq_iff_iff, decide_eq_true_iff, mem_suggestionsFor_iff]
  have hlength : toRewrite.length = files.countP (isBelow thresholds.attentionIndex) := by
    rw [hfilter, List.countP_eq_length_filter]
  refine ⟨fun m _ => mem_suggestionsFor_iff.symm, congrArg Nat.cast hlength.symm, ?_⟩
  refine ⟨byIndex (files.filter (isBelow 60)), byIndex toRewrite, isRanking_byIndex files 60, ?_,
    fun run startedAt folder => run.lists_worstFiles startedAt folder r, ?_⟩
  · rw [hfilter]
    exact isRanking_byIndex files thresholds.attentionIndex
  · rw [hlength, hfilter]
    exact take_byIndex_eq_iff files 60 thresholds.attentionIndex 5

/-- A file with the index 70 is counted below a limit of 80 and not listed. -/
theorem higher_limit_lists_none : ¬ ∀ (thresholds : Thresholds) (files : List Metrics)
    (failures : List FileFailure) (counted : List Metrics),
    IsRanking isNoBetter
      (files.filter fun m => decide (rewriteAdvice ∈ m.suggestionsFor thresholds)) counted →
    ∀ run startedAt folder, RunSummary.Lists run startedAt folder
      (ofFiles thresholds files failures) (counted.take 5) := by
  intro hall
  let m : Metrics := { testFile := "a.spec.ts", maintainabilityIndex := .ofWhole 70 }
  have hranking : IsRanking isNoBetter [m] [m] :=
    ⟨List.Perm.refl _, List.pairwise_singleton _ _, fun _ _ => rfl⟩
  have hcounted : ([m].filter fun m =>
      decide (rewriteAdvice ∈ m.suggestionsFor { attentionIndex := 80 })) = [m] := by
    decide +kernel
  have h := hall { attentionIndex := 80 } [m] [] [m] (hcounted ▸ hranking)
    { testDirectory := "specs", outputDirectory := "out" } { year := 2024, month := 5, day := 1 } []
  unfold RunSummary.Lists at h
  revert h
  decide +kernel

end MaintainabilityReport
end SuiteAudit
