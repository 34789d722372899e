import SuiteAudit.Proofs.Source.CallLines
import SuiteAudit.Proofs.Source.CutScan

/-! # Calls that are reported

The calls of a text are counted in the whole text, and its test cases are found line by line.  A call
that lies within one line is never lost: the line on which it begins lies in a case that is emitted or
dropped with a warning.  A call that goes over a line end is found in no line, so that it is lost when no
other call lies within the line on which it begins and no case is open there (`reported_call_iff`,
`broken_call_is_lost`). -/

namespace SuiteAudit

/-- A line lies in a test case of a text that is emitted, or in one that is dropped with a warning. -/
def IsReported (content : Text) (n : Int) : Prop :=
  (∃ b ∈ casesOf content, b.startLine ≤ n ∧ n ≤ b.endLine) ∨
    ∃ b reason w, .dropped b reason ∈ caseRegions content 1 ∧
      (Region.dropped b reason).warning? = some w ∧ w ∈ warningsOf (caseRegions content 1) ∧
      b.startLine ≤ n ∧ n ≤ b.endLine

theorem isReported_iff {content : Text} {n : Int} :
    IsReported content n ↔ ∃ r ∈ caseRegions content 1, r.Covers n := by
  constructor
  · rintro (⟨b, hb, hn⟩ | ⟨b, reason, w, hr, -, -, hn⟩)
    · exact ⟨.block b, mem_blocksOf.mp hb, hn⟩
    · exact ⟨.dropped b reason, hr, hn⟩
  · rintro ⟨r, hr, hn⟩
    cases r with
    | block b => exact Or.inl ⟨b, mem_blocksOf.mpr hr, hn⟩
    | dropped b reason =>
        obtain ⟨w, hw⟩ := Region.exists_warning b reason
        exact Or.inr ⟨b, reason, w, hr, hw, List.mem_filterMap.mpr ⟨_, hr, hw⟩, hn⟩

namespace Opening

/-- The line on which a call of a text begins, and the call in it unless it goes over the line end. -/
theorem exists_line_of_mem_findAll {content : Text} {hit : Hit}
    (h : hit ∈ case.pattern.findAll content) :
    ∃ before line behind, Text.lines content = before ++ line :: behind ∧
      Text.lineAt content hit.offset = before.length + 1 ∧
      ('\n' ∉ hit.text → case.isOn line = true) := by
  obtain ⟨a, r, rfl, ho, hm⟩ := Pattern.exists_of_mem_findAll case_advances h
  obtain ⟨hb, q, title, k, r', hk, -, ehit⟩ := exists_of_case_matchAt hm
  have htext : hit.text = k := congrArg Hit.text ehit
  obtain ⟨before, x, y, behind, hlines, hrest, hcount, hx⟩ :=
    Text.exists_lines_append a (k ++ r)
  rw [htext, ho, List.append_assoc]
  refine ⟨before, x ++ y, behind, hlines, ?_, fun hn => ?_⟩
  · rw [Text.lineAt, List.take_left, hcount]
    rfl
  · obtain ⟨l, ls, hl⟩ := List.exists_cons_of_ne_nil (Text.lines_ne_nil r)
    rw [Text.lines_append_of_not_mem hn hl] at hrest
    obtain ⟨rfl, -⟩ := List.cons.inj hrest
    refine isOn_case_iff.mpr ⟨x, q, title, k, l, rfl, hk, ?_⟩
    obtain ⟨s, rfl⟩ := hx
    rw [wordAfter_false]
    cases hlast : x.getLast? with
    | none => rfl
    | some c => simpa [hlast] using hb

end Opening

/-- A call within one line begins on a line of a case that is emitted or dropped with a warning.  Any
call begins on such a line exactly when a call lies within this line or a case is open before it. -/
theorem reported_call_iff (content : Text) : ∀ hit ∈ Opening.case.pattern.findAll content,
    ('\n' ∉ hit.text → IsReported content (Text.lineAt content hit.offset)) ∧
    ∃ before line behind, Text.lines content = before ++ line :: behind ∧
      Text.lineAt content hit.offset = before.length + 1 ∧
      (IsReported content (Text.lineAt content hit.offset) ↔
        Opening.case.isOn line = true ∨ openAfter .case 1 none before ≠ none) := by
  intro hit hh
  obtain ⟨before, line, behind, hlines, hnumber, hon⟩ := Opening.exists_line_of_mem_findAll hh
  have hiff : IsReported content (Text.lineAt content hit.offset) ↔
      Opening.case.isOn line = true ∨ openAfter .case 1 none before ≠ none := by
    have hcovers := exists_covers_iff .case 1 before behind line
    have hn : ((Text.lineAt content hit.offset : Nat) : Int) = 1 + before.length := by omega
    rw [isReported_iff, caseRegions, hlines, hn]
    exact hcovers
  exact ⟨fun hn => hiff.mpr (Or.inl (hon hn)), before, line, behind, hlines, hnumber, hiff⟩

/-- A case that is not closed, with a call in it that goes over a line end. -/
def openContent : Text := "test('a', () => \x7b\n  it(\n    'b', () => \x7b\x7d);"

theorem open_calls_are_reported : ∃ first ∈ Opening.case.pattern.findAll openContent,
    '\n' ∉ first.text ∧ IsReported openContent (Text.lineAt openContent first.offset) ∧
    ∃ second ∈ Opening.case.pattern.findAll openContent, '\n' ∈ second.text ∧
      Text.lineAt openContent second.offset = 2 ∧ IsReported openContent 2 := by
  have h₁ : (Opening.case.pattern.findAll openContent).any (fun hit => '\n' ∉ hit.text) = true := by
    decide +kernel
  have h₂ : (Opening.case.pattern.findAll openContent).any (fun hit =>
      '\n' ∈ hit.text ∧ Text.lineAt openContent hit.offset = 2) = true := by
    decide +kernel
  obtain ⟨first, hfirst, h₁⟩ := List.any_eq_true.mp h₁
  obtain ⟨second, hsecond, h₂⟩ := List.any_eq_true.mp h₂
  have hn := of_decide_eq_true h₁
  obtain ⟨hn', hline⟩ := of_decide_eq_true h₂
  refine ⟨first, hfirst, hn, (reported_call_iff openContent first hfirst).1 hn, second, hsecond, hn',
    hline, ?_⟩
  obtain ⟨-, before, line, behind, hlines, hnumber, hiff⟩ :=
    reported_call_iff openContent second hsecond
  have hbefore : before = (Text.lines openContent).take 1 := by
    have hlen : before.length = 1 := by omega
    rw [hlines, ← hlen, List.take_left]
  rw [hline] at hiff
  refine hiff.mpr (Or.inr ?_)
  rw [hbefore]
  decide +kernel

/-- A file with one call, which goes over a line end. -/
def brokenContent : Text := "test(\n  'a', () => \x7b\n  \x7d);"

/-- The only call of that file begins on a line of no case, and there is no warning. -/
theorem broken_call_is_lost : ∃ hit ∈ Opening.case.pattern.findAll brokenContent,
    countCaseCalls brokenContent = 1 ∧ warningsOf (caseRegions brokenContent 1) = [] ∧
      ¬ IsReported brokenContent (Text.lineAt brokenContent hit.offset) := by
  have h : (Opening.case.pattern.findAll brokenContent).any (fun hit =>
      ¬ ∃ r ∈ caseRegions brokenContent 1, r.Covers (Text.lineAt brokenContent hit.offset)) =
        true := by
    decide +kernel
  obtain ⟨hit, hh, h⟩ := List.any_eq_true.mp h
  rw [decide_eq_true_eq, ← isReported_iff] at h
  exact ⟨hit, hh, by decide +kernel, by decide +kernel, h⟩

end SuiteAudit
