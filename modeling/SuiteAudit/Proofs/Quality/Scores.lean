import Mathlib.Data.List.Perm.Basic
import SuiteAudit.Proofs.Number.Order
import SuiteAudit.Quality.Report

/-! # Scores and grades

What some violations cost depends on how many there are of each severity alone (`penaltyOf_eq`), and
every violation is of one severity.  So neither their order nor where a violation is added matters to
the score and the grade, and one more violation never makes them better (`IsGraded`). -/

namespace SuiteAudit

variable {violations : List Violation}

/-- The place of a grade among all grades, the best one first. -/
def Grade.place (g : Grade) : Nat := Grade.all.idxOf g

/-- The grade of some violations. -/
def gradeOf (violations : List Violation) : Grade := .ofScore (.ofWhole (scoreOf violations))

/-- What violations cost, by their severities. -/
theorem penaltyOf_eq (violations : List Violation) :
    (penaltyOf violations : Int) = 10 * (SeverityCounts.ofViolations violations).errors +
      5 * (SeverityCounts.ofViolations violations).warnings +
      2 * (SeverityCounts.ofViolations violations).infos := by
  induction violations with
  | nil => rfl
  | cons v rest ih =>
      have hcons : penaltyOf (v :: rest) = v.severity.weight + penaltyOf rest := rfl
      rw [hcons]
      simp only [SeverityCounts.ofViolations, List.countP_cons] at ih ⊢
      cases hv : v.severity <;> simp [Severity.weight] <;> omega

/-- Every violation is of one severity. -/
theorem length_eq_counts (violations : List Violation) :
    (SeverityCounts.ofViolations violations).errors +
      (SeverityCounts.ofViolations violations).warnings +
      (SeverityCounts.ofViolations violations).infos = violations.length := by
  induction violations with
  | nil => rfl
  | cons v rest ih =>
      simp only [SeverityCounts.ofViolations, List.countP_cons] at ih ⊢
      cases hv : v.severity <;> simp <;> omega

theorem scoreOf_eq (violations : List Violation) :
    scoreOf violations = max 0 (100 - 10 * (SeverityCounts.ofViolations violations).errors -
      5 * (SeverityCounts.ofViolations violations).warnings -
      2 * (SeverityCounts.ofViolations violations).infos) := by
  have h := penaltyOf_eq violations
  unfold scoreOf
  omega

/-! ### More violations, and other orders -/

theorem counts_eq_of_perm {other : List Violation} (h : other.Perm violations) :
    SeverityCounts.ofViolations other = SeverityCounts.ofViolations violations := by
  simp only [SeverityCounts.ofViolations, h.countP_eq]

theorem scoreOf_eq_of_perm {other : List Violation} (h : other.Perm violations) :
    scoreOf other = scoreOf violations := by
  rw [scoreOf_eq, scoreOf_eq, counts_eq_of_perm h]

theorem scoreOf_cons_le (v : Violation) (violations : List Violation) :
    scoreOf (v :: violations) ≤ scoreOf violations := by
  have h : penaltyOf (v :: violations) = v.severity.weight + penaltyOf violations := rfl
  unfold scoreOf
  omega

/-- A violation that is added anywhere does not raise the score. -/
theorem scoreOf_insert_le (v : Violation) (before behind : List Violation) :
    scoreOf (before ++ v :: behind) ≤ scoreOf (before ++ behind) := by
  rw [scoreOf_eq_of_perm List.perm_middle]
  exact scoreOf_cons_le v (before ++ behind)

theorem Grade.place_ofScore (n : Int) : (ofScore (.ofWhole n)).place =
    if 90 ≤ n then 0 else if 80 ≤ n then 1 else if 70 ≤ n then 2 else if 60 ≤ n then 3 else 4 := by
  simp only [ofScore, Extended.ofWhole_le_iff]
  split_ifs <;> rfl

/-- A score that is no higher has no better grade. -/
theorem Grade.place_anti {a b : Int} (h : a ≤ b) :
    (ofScore (.ofWhole b)).place ≤ (ofScore (.ofWhole a)).place := by
  rw [place_ofScore, place_ofScore]
  split_ifs <;> omega

/-! ### Reports -/

/-- The score and the grade of a report are those of its violations by their number of each severity,
in whatever order, and do not get better by one more. -/
structure QualityReport.IsGraded (q : QualityReport) : Prop where
  counted : q.summary.errors + q.summary.warnings + q.summary.infos = q.violations.length
  score : q.score =
    max 0 (100 - 10 * q.summary.errors - 5 * q.summary.warnings - 2 * q.summary.infos)
  permuted : ∀ violations : List Violation, violations.Perm q.violations →
    scoreOf violations = q.score ∧ gradeOf violations = q.grade
  added : ∀ v before behind, q.violations = before ++ behind →
    scoreOf (before ++ v :: behind) ≤ q.score ∧
      q.grade.place ≤ (gradeOf (before ++ v :: behind)).place

theorem Registry.isGraded_check (r : Registry) (content path : Text) :
    (r.check content path).IsGraded where
  counted := length_eq_counts _
  score := scoreOf_eq _
  permuted violations h := by
    have hscore := scoreOf_eq_of_perm h
    exact ⟨hscore, congrArg (fun n => Grade.ofScore (.ofWhole n)) hscore⟩
  added v before behind h := by
    have hscore : scoreOf (before ++ v :: behind) ≤ (r.check content path).score := by
      refine (scoreOf_insert_le v before behind).trans_eq ?_
      rw [← h]
      rfl
    exact ⟨hscore, Grade.place_anti hscore⟩

end SuiteAudit
