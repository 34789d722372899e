import SuiteAudit.Proofs.Maintainability.MissingComments
import SuiteAudit.Proofs.Pattern.Scan
import SuiteAudit.Proofs.Source.QuotedCall
import SuiteAudit.Proofs.Text.Lines
import SuiteAudit.Proofs.Text.Blanks

/-! # Smells are found where they are

Each detector looks at a line and, for missing comments, at two lines on both sides of it.  So what
is reported on a line is told by five lines, wherever they stand (`smells_local`), and the smells of
a file come in order (`pairwise_of_smellsOf`).  There is one way in which a line bears on another
one far from it: a numeral that is too long to be read ends the search (`smellsOf_ones`,
`smells_not_local`). -/

namespace SuiteAudit

variable {lines : List Text} {index : Nat} {line : Text} {smells : List Smell}

/-! ### Reports that are made line by line -/

section Reports

variable {β : Type} {report : Nat → Text → List β} (lineOf : β → Int)

/-- What is reported on the lines of a file, one line after the other. -/
def reportsOn (report : Nat → Text → List β) (lines : List Text) : List β :=
  lines.zipIdx.flatMap fun p => report p.2 p.1

theorem pairwise_zipIdx (lines : List Text) : lines.zipIdx.Pairwise fun p q => p.2 < q.2 := by
  have h : (lines.zipIdx.map (·.2)).Pairwise (· < ·) := by
    rw [List.zipIdx_map_snd]
    exact List.pairwise_lt_range'
  exact List.pairwise_map.mp h

theorem pairwise_reportsOn {R : β → β → Prop}
    (hline : ∀ index line b, b ∈ report index line → lineOf b = index + 1)
    (hlt : ∀ a b, lineOf a < lineOf b → R a b) (hone : ∀ index line, (report index line).Pairwise R)
    (lines : List Text) : (reportsOn report lines).Pairwise R := by
  refine List.pairwise_flatMap.mpr ⟨fun p _ => hone p.2 p.1, ?_⟩
  refine (pairwise_zipIdx lines).imp fun {p q} h a ha b hb => hlt a b ?_
  rw [hline _ _ a ha, hline _ _ b hb]
  omega

/-- Other lines report nothing with the number of a line. -/
theorem filter_reports_eq_nil (hline : ∀ index line b, b ∈ report index line → lineOf b = index + 1)
    (numbered : List (Text × Nat)) (n : Nat) (hne : ∀ p ∈ numbered, p.2 ≠ n) :
    (numbered.flatMap fun p => report p.2 p.1).filter (fun b => lineOf b = n + 1) = [] := by
  refine List.filter_eq_nil_iff.mpr fun b hb h => ?_
  obtain ⟨p, hp, hb⟩ := List.mem_flatMap.mp hb
  have hnumber := hline _ _ b hb
  have hn := of_decide_eq_true h
  exact hne p hp (by omega)

/-- What is reported with the number of a line is what is reported on it. -/
theorem filter_reportsOn (hline : ∀ index line b, b ∈ report index line → lineOf b = index + 1)
    {before behind : List Text} (hlines : lines = before ++ line :: behind) :
    (reportsOn report lines).filter (fun b => lineOf b = before.length + 1) =
      report before.length line := by
  have hbefore := filter_reports_eq_nil lineOf hline before.zipIdx before.length fun p hp =>
    Nat.ne_of_lt (List.snd_lt_of_mem_zipIdx hp)
  have hbehind := filter_reports_eq_nil lineOf hline (behind.zipIdx (before.length + 1))
    before.length fun p hp => Nat.ne_of_gt (List.le_snd_of_mem_zipIdx hp)
  have hhere : (report before.length line).filter (fun b => lineOf b = before.length + 1) =
      report before.length line :=
    List.filter_eq_self.mpr fun b hb => decide_eq_true (hline _ _ b hb)
  rw [hlines, reportsOn, List.zipIdx_append, List.flatMap_append, List.zipIdx_cons,
    List.flatMap_cons, List.filter_append, List.filter_append, Nat.zero_add, hbefore, hbehind, hhere,
    List.nil_append, List.append_nil]

end Reports

/-! ### The detectors -/

/-- What finds a smell, in the order in which a line is looked at. -/
inductive Detector where
  | hardCodedText
  | longLine
  | magicNumber
  | complexSelector
  | missingComment
  | vagueName
  deriving DecidableEq, Repr

namespace Detector

def all : List Detector :=
  [hardCodedText, longLine, magicNumber, complexSelector, missingComment, vagueName]

/-- The place of a detector in that order. -/
def place (d : Detector) : Nat := all.idxOf d

/-- What a detector finds on the line at `index`, which holds a magic number or not. -/
def smell? (lines : List Text) (index : Nat) (line : Text) (magic : Bool) : Detector → Option Smell
  | hardCodedText =>
    if Smell.hasHardCodedText (Text.trim line) then some (.hardCodedText (index + 1)) else none
  | longLine => if Smell.maxLineLength < line.length then some (.longLine (index + 1)) else none
  | magicNumber => if magic then some (.magicNumber (index + 1)) else none
  | complexSelector =>
    if Smell.hasComplexSelector (Text.trim line) then some (.complexSelector (index + 1)) else none
  | missingComment => (commentFindingAt? lines index line).map Smell.missingComment
  | vagueName => (Smell.vagueDeclaration.find? (Text.trim line)).map fun hit =>
      .vagueName (index + 1) (hit.group 1)

end Detector

/-- The detectors are run one after the other on a line that is no comment. -/
theorem smellsOfLine_eq (lines : List Text) (index : Nat) (line : Text) :
    smellsOfLine lines index line = if isCommentLine (Text.trim line) then .ok [] else
      (Smell.hasMagicNumber (Text.trim line)).map fun magic =>
        Detector.all.filterMap (Detector.smell? lines index line magic) := by
  rw [smellsOfLine]
  cases isCommentLine (Text.trim line) with
  | true => rfl
  | false =>
      cases Smell.hasMagicNumber (Text.trim line) with
      | error e => rfl
      | ok magic =>
          simp only [Except.map, bind, Except.bind, pure, Except.pure]
          rw [List.filterMap_eq_flatMap_toList]
          simp [Detector.all, Detector.smell?, apply_ite Option.toList]

namespace Smell

/-- The detector that a smell is from. -/
def detector (s : Smell) : Detector :=
  match s.kind, s.severity with
  | .missingComments, _ => .missingComment
  | .poorNaming, _ => .vagueName
  | .complexLogic, .low => .longLine
  | .complexLogic, _ => .complexSelector
  | _, _ => if s.description = (magicNumber 0).description then .magicNumber else .hardCodedText

/-- A smell comes before another one by its line, and on one line by its detector. -/
def IsBefore (a b : Smell) : Prop :=
  a.line < b.line ∨ a.line = b.line ∧ a.detector.place < b.detector.place

/-- A smell without the number of its line. -/
def unplaced (s : Smell) : Smell := { s with line := 0 }

end Smell

namespace Detector

variable {magic : Bool} {d : Detector} {s : Smell}

theorem smell?_eq_some (h : d.smell? lines index line magic = some s) :
    s.detector = d ∧ s.line = index + 1 := by
  cases d with
  | missingComment =>
      obtain ⟨f, hf, rfl⟩ := Option.map_eq_some_iff.mp h
      have hline : f.line = index + 1 := congrArg (·.line) (eq_of_commentFindingAt? hf).2
      exact ⟨rfl, congrArg Nat.cast hline⟩
  | vagueName =>
      obtain ⟨hit, -, rfl⟩ := Option.map_eq_some_iff.mp h
      exact ⟨rfl, rfl⟩
  | hardCodedText =>
      obtain ⟨-, h⟩ := Option.ite_none_right_eq_some.mp h
      have hdetector : (Smell.hardCodedText 0).detector = .hardCodedText := by decide +kernel
      exact Option.some.inj h ▸ ⟨hdetector, rfl⟩
  | longLine =>
      obtain ⟨-, h⟩ := Option.ite_none_right_eq_some.mp h
      exact Option.some.inj h ▸ ⟨rfl, rfl⟩
  | magicNumber =>
      obtain ⟨-, h⟩ := Option.ite_none_right_eq_some.mp h
      exact Option.some.inj h ▸ ⟨rfl, rfl⟩
  | complexSelector =>
      obtain ⟨-, h⟩ := Option.ite_none_right_eq_some.mp h
      exact Option.some.inj h ▸ ⟨rfl, rfl⟩

end Detector

theorem smellsOfLine_cases (h : smellsOfLine lines index line = .ok smells) :
    smells = [] ∨
      ∃ magic, smells = Detector.all.filterMap (Detector.smell? lines index line magic) := by
  rw [smellsOfLine_eq] at h
  split at h
  · exact .inl (Except.ok.inj h).symm
  · cases hmagic : Smell.hasMagicNumber (Text.trim line) with
    | error e => rw [hmagic] at h; cases h
    | ok magic =>
        rw [hmagic] at h
        exact .inr ⟨magic, (Except.ok.inj h).symm⟩

/-- The smells that are reported on a line, none if its numerals cannot be read. -/
def smellsAt (lines : List Text) (index : Nat) (line : Text) : List Smell :=
  (smellsOfLine lines index line).toOption.getD []

theorem smellsAt_cases (lines : List Text) (index : Nat) (line : Text) :
    smellsAt lines index line = [] ∨ ∃ magic, smellsAt lines index line =
      Detector.all.filterMap (Detector.smell? lines index line magic) := by
  cases h : smellsOfLine lines index line with
  | error e => exact .inl (by rw [smellsAt, h]; rfl)
  | ok smells =>
      have hat : smellsAt lines index line = smells := by rw [smellsAt, h]; rfl
      rw [hat]
      exact smellsOfLine_cases h

theorem line_of_mem_smellsAt {s : Smell} (hs : s ∈ smellsAt lines index line) :
    s.line = index + 1 := by
  rcases smellsAt_cases lines index line with h | ⟨magic, h⟩
  · rw [h] at hs
    cases hs
  · rw [h] at hs
    obtain ⟨d, -, hd⟩ := List.mem_filterMap.mp hs
    exact (Detector.smell?_eq_some hd).2

theorem pairwise_smellsAt (lines : List Text) (index : Nat) (line : Text) :
    (smellsAt lines index line).Pairwise Smell.IsBefore := by
  rcases smellsAt_cases lines index line with h | ⟨magic, h⟩
  · rw [h]
    exact .nil
  · have hplace : Detector.all.Pairwise fun d d' => d.place < d'.place := by decide
    rw [h, List.pairwise_filterMap]
    refine hplace.imp fun {d d'} hlt s hs s' hs' => .inr ?_
    obtain ⟨hd, hline⟩ := Detector.smell?_eq_some hs
    obtain ⟨hd', hline'⟩ := Detector.smell?_eq_some hs'
    rw [hd, hd', hline, hline']
    exact ⟨rfl, hlt⟩

theorem eq_reportsOn_of_smellsOf {content : Text} (h : smellsOf content = .ok smells) :
    smells = reportsOn (smellsAt (Text.lines content)) (Text.lines content) := by
  obtain ⟨all, hall, rfl⟩ := smellsOf_eq_ok_iff.mp h
  have hforall := forall₂_of_mapM_ok hall
  rw [reportsOn]
  clear h hall
  generalize (Text.lines content).zipIdx = numbered at hforall ⊢
  induction hforall with
  | nil => rfl
  | cons hline _ ih =>
      rw [List.flatten_cons, List.flatMap_cons, ← ih, smellsAt, hline]
      rfl

/-! ### What a line is surrounded by -/

theorem markerNear_window (before behind : List Text) (w₁ w₂ w₃ w₄ w₅ : Text) :
    markerNear (before ++ [w₁, w₂, w₃, w₄, w₅] ++ behind) (before.length + 2) commentWindow =
      ([w₄, w₅].any isCommentMarker || [w₁, w₂].any isCommentMarker) := by
  have hbehind : before ++ [w₁, w₂, w₃, w₄, w₅] ++ behind =
      (before ++ [w₁, w₂, w₃]) ++ ([w₄, w₅] ++ behind) := by simp
  have hbefore : before ++ [w₁, w₂, w₃, w₄, w₅] ++ behind =
      (before ++ [w₁, w₂]) ++ ([w₃, w₄, w₅] ++ behind) := by simp
  have hdrop : (before ++ [w₁, w₂, w₃, w₄, w₅] ++ behind).drop (before.length + 2 + 1) =
      [w₄, w₅] ++ behind := by
    rw [hbehind]
    exact List.drop_left' (by simp)
  have htake : (before ++ [w₁, w₂, w₃, w₄, w₅] ++ behind).take (before.length + 2) =
      before ++ [w₁, w₂] := by
    rw [hbefore]
    exact List.take_left' (by simp)
  rw [markerNear, hdrop, htake, commentWindow, Nat.add_sub_cancel, List.drop_left' rfl]
  rfl

/-- Whether a line has a comment near is told by five lines. -/
theorem hasNearbyComment_window (before behind : List Text) (w₁ w₂ w₃ w₄ w₅ : Text) :
    hasNearbyComment (before ++ [w₁, w₂, w₃, w₄, w₅] ++ behind) (before.length + 2) commentWindow =
      (hasTrailingComment w₃ ||
        ([w₄, w₅].any isCommentMarker || [w₁, w₂].any isCommentMarker)) := by
  have hline : (before ++ [w₁, w₂, w₃, w₄, w₅] ++ behind)[before.length + 2]? = some w₃ := by
    simp
  rw [hasNearbyComment, markerNear_window, hline, Option.any_some]

/-! ### The same line in two files -/

section SameLine

variable {lines' : List Text} {index' : Nat}

/-- A finding is the same wherever its line stands, apart from the number. -/
theorem map_commentFindingAt? {β : Type} {f : CommentFinding → β}
    (hf : ∀ n n' kind text, f ⟨n, kind, text⟩ = f ⟨n', kind, text⟩)
    (h : hasNearbyComment lines index commentWindow = hasNearbyComment lines' index' commentWindow)
    (line : Text) :
    (commentFindingAt? lines index line).map f = (commentFindingAt? lines' index' line).map f := by
  rw [commentFindingAt?, commentFindingAt?, h]
  cases Obscurity.ofLine? line with
  | none => rfl
  | some kind =>
      cases hasNearbyComment lines' index' commentWindow with
      | true => rfl
      | false => exact congrArg some (hf _ _ _ _)

theorem map_unplaced_smell?
    (h : hasNearbyComment lines index commentWindow = hasNearbyComment lines' index' commentWindow)
    (line : Text) (magic : Bool) (d : Detector) :
    (d.smell? lines index line magic).map Smell.unplaced =
      (d.smell? lines' index' line magic).map Smell.unplaced := by
  cases d with
  | missingComment =>
      rw [Detector.smell?, Detector.smell?, Option.map_map, Option.map_map]
      exact map_commentFindingAt? (fun _ _ _ _ => rfl) h line
  | vagueName =>
      rw [Detector.smell?, Detector.smell?, Option.map_map, Option.map_map]
      rfl
  | hardCodedText => simp only [Detector.smell?, apply_ite (Option.map Smell.unplaced)]; rfl
  | longLine => simp only [Detector.smell?, apply_ite (Option.map Smell.unplaced)]; rfl
  | magicNumber => simp only [Detector.smell?, apply_ite (Option.map Smell.unplaced)]; rfl
  | complexSelector => simp only [Detector.smell?, apply_ite (Option.map Smell.unplaced)]; rfl

/-- What the detectors say about a line, also that a numeral cannot be read. -/
theorem map_unplaced_smellsOfLine
    (h : hasNearbyComment lines index commentWindow = hasNearbyComment lines' index' commentWindow)
    (line : Text) : (smellsOfLine lines index line).map (List.map Smell.unplaced) =
      (smellsOfLine lines' index' line).map (List.map Smell.unplaced) := by
  have hall (magic : Bool) : (Detector.all.filterMap (Detector.smell? lines index line magic)).map
      Smell.unplaced =
      (Detector.all.filterMap (Detector.smell? lines' index' line magic)).map Smell.unplaced := by
    simp only [List.map_filterMap, map_unplaced_smell? h]
  rw [smellsOfLine_eq, smellsOfLine_eq]
  cases isCommentLine (Text.trim line) with
  | true => rfl
  | false =>
      cases Smell.hasMagicNumber (Text.trim line) with
      | error e => rfl
      | ok magic => exact congrArg Except.ok (hall magic)

end SameLine

/-! ### Smells of the whole file -/

/-- The smells with the number of a line, without the number. -/
def Smell.on (n : Int) (smells : List Smell) : List Smell :=
  (smells.filter fun s => s.line = n).map unplaced

/-- The violations with the number of a line, without the number. -/
def Violation.on (n : Int) (violations : List Violation) : List Violation :=
  (violations.filter fun v => v.line = n).map fun v => { v with line := 0 }

/-- The smells of a file stand line by line, those of one line in the order of the detectors. -/
theorem pairwise_of_smellsOf {content : Text} (h : smellsOf content = .ok smells) :
    smells.Pairwise Smell.IsBefore := by
  rw [eq_reportsOn_of_smellsOf h]
  exact pairwise_reportsOn Smell.line (fun _ _ _ hs => line_of_mem_smellsAt hs)
    (fun _ _ hlt => .inl hlt) (pairwise_smellsAt _) _

theorem length_filter_detector_le (h : smells.Pairwise Smell.IsBefore) (n : Int) (d : Detector) :
    (smells.filter fun s => s.line = n ∧ s.detector = d).length ≤ 1 := by
  have hpair := h.filter fun s => s.line = n ∧ s.detector = d
  have hof {s : Smell} (hs : s ∈ smells.filter fun s => s.line = n ∧ s.detector = d) :
      s.line = n ∧ s.detector = d := of_decide_eq_true (List.mem_filter.mp hs).2
  revert hpair hof
  generalize smells.filter (fun s => decide (s.line = n ∧ s.detector = d)) = found
  intro hpair hof
  match found with
  | [] => exact Nat.zero_le _
  | [_] => exact Nat.le_refl _
  | a :: b :: _ =>
      have ha := hof List.mem_cons_self
      have hb := hof (List.mem_cons_of_mem _ List.mem_cons_self)
      have hbefore := List.rel_of_pairwise_cons hpair List.mem_cons_self
      rw [Smell.IsBefore, ha.1, ha.2, hb.1, hb.2] at hbefore
      omega

theorem on_of_smellsOf {content : Text} {before behind : List Text}
    (h : smellsOf content = .ok smells) (hlines : Text.lines content = before ++ line :: behind) :
    Smell.on (before.length + 1) smells =
      (smellsAt (Text.lines content) before.length line).map Smell.unplaced := by
  rw [Smell.on, eq_reportsOn_of_smellsOf h, filter_reportsOn Smell.line
    (fun _ _ _ hs => line_of_mem_smellsAt hs) hlines]

theorem map_unplaced_smellsAt {lines' : List Text} {index' : Nat}
    (h : hasNearbyComment lines index commentWindow = hasNearbyComment lines' index' commentWindow)
    (line : Text) : (smellsAt lines index line).map Smell.unplaced =
      (smellsAt lines' index' line).map Smell.unplaced := by
  have hline := map_unplaced_smellsOfLine h line
  rw [smellsAt, smellsAt]
  cases hs : smellsOfLine lines index line <;> cases hs' : smellsOfLine lines' index' line <;>
    rw [hs, hs'] at hline
  · rfl
  · cases hline
  · cases hline
  · exact Except.ok.inj hline

/-- A violation without its number is what was found without its number. -/
theorem on_of_complexLogic {content : Text} {before behind : List Text}
    (hlines : Text.lines content = before ++ line :: behind) :
    Violation.on (before.length + 1) ((commentFindings content).map Checks.unexplained) =
      ((commentFindingAt? (Text.lines content) before.length line).map fun f =>
        { Checks.unexplained f with line := 0 }).toList := by
  have hreports : (commentFindings content).map Checks.unexplained =
      reportsOn (fun index line =>
        ((commentFindingAt? (Text.lines content) index line).map Checks.unexplained).toList)
        (Text.lines content) := by
    rw [commentFindings, commentFindingsIn, List.map_filterMap, List.filterMap_eq_flatMap_toList,
      reportsOn]
  have hline : ∀ index line v, v ∈ ((commentFindingAt? (Text.lines content) index line).map
      Checks.unexplained).toList → v.line = index + 1 := by
    intro index line v hv
    obtain ⟨f, hf, rfl⟩ := Option.map_eq_some_iff.mp (Option.mem_toList.mp hv)
    have hline : f.line = index + 1 := congrArg (·.line) (eq_of_commentFindingAt? hf).2
    exact congrArg Nat.cast hline
  rw [Violation.on, hreports, filter_reportsOn Violation.line hline hlines]
  cases commentFindingAt? (Text.lines content) before.length line <;> rfl

/-- What is reported on the third of five lines is the same wherever the five stand, apart from the
number of the line: the violation of the check of complex logic, of which there is one at most, and
the smells, if the search for them ends in both files.  It ends when the numerals of the code can be
read; the smells come ordered by line, and every detector finds one at most on a line. -/
theorem smells_local (before behind before' behind' : List Text) (w₁ w₂ w₃ w₄ w₅ : Text)
    (content content' path path' : Text)
    (h : Text.lines content = before ++ [w₁, w₂, w₃, w₄, w₅] ++ behind)
    (h' : Text.lines content' = before' ++ [w₁, w₂, w₃, w₄, w₅] ++ behind') :
    (∃ violations violations', Checks.complexLogicComments content path = .ok violations ∧
      Checks.complexLogicComments content' path' = .ok violations' ∧
      Violation.on (before.length + 3) violations =
        Violation.on (before'.length + 3) violations' ∧
      (Violation.on (before.length + 3) violations).length ≤ 1) ∧
    (∀ smells smells', smellsOf content = .ok smells → smellsOf content' = .ok smells' →
      Smell.on (before.length + 3) smells = Smell.on (before'.length + 3) smells') ∧
    ((∃ smells, smellsOf content = .ok smells) ↔ ∀ line ∈ Text.lines content,
      isCommentLine (Text.trim line) = false → AreReadable (numeralsOf (Text.trim line))) ∧
    ∀ smells, smellsOf content = .ok smells → (smells.map (·.line)).Pairwise (· ≤ ·) ∧
      ∀ n d, (smells.filter fun s => s.line = n ∧ s.detector = d).length ≤ 1 := by
  have hlines {content : Text} {before behind : List Text}
      (h : Text.lines content = before ++ [w₁, w₂, w₃, w₄, w₅] ++ behind) :
      Text.lines content = (before ++ [w₁, w₂]) ++ w₃ :: ([w₄, w₅] ++ behind) := by
    rw [h]
    simp
  have hnumber (before : List Text) :
      (before.length + 3 : Int) = ((before ++ [w₁, w₂]).length : Int) + 1 := by
    rw [List.length_append]
    rfl
  have hnear : hasNearbyComment (Text.lines content) (before ++ [w₁, w₂]).length commentWindow =
      hasNearbyComment (Text.lines content') (before' ++ [w₁, w₂]).length commentWindow := by
    rw [List.length_append, List.length_append, h, h']
    exact (hasNearbyComment_window ..).trans (hasNearbyComment_window ..).symm
  rw [hnumber, hnumber]
  refine ⟨⟨_, _, rfl, rfl, ?_, ?_⟩, fun smells smells' hs hs' => ?_, smellsOf_ok_iff,
    fun smells hs => ⟨?_, length_filter_detector_le (pairwise_of_smellsOf hs)⟩⟩
  · rw [on_of_complexLogic (hlines h), on_of_complexLogic (hlines h'),
      map_commentFindingAt? (fun _ _ _ _ => rfl) hnear]
  · rw [on_of_complexLogic (hlines h)]
    exact Option.length_toList_le
  · rw [on_of_smellsOf hs (hlines h), on_of_smellsOf hs' (hlines h'), map_unplaced_smellsAt hnear]
  · refine List.pairwise_map.mpr ((pairwise_of_smellsOf hs).imp fun hbefore => ?_)
    rcases hbefore with hlt | ⟨heq, -⟩
    · exact Int.le_of_lt hlt
    · exact Int.le_of_eq heq

/-- A call that should be explained and whose result has a vague name. -/
def vagueCall : Text := "const res = await Promise.all(calls);"

/-- It stands on the fourth line of one file and on the third line of another one. -/
theorem vagueCall_on :
    smellsOf ("import x;\n\n\n" ++ vagueCall ++ "\n\n") =
        .ok [.missingComment ⟨4, .concurrent, vagueCall⟩, .vagueName 4 "res"] ∧
      smellsOf ("\n\n" ++ vagueCall ++ "\n\n\n// done") =
        .ok [.missingComment ⟨3, .concurrent, vagueCall⟩, .vagueName 3 "res"] ∧
      Smell.on 4 [.missingComment ⟨4, .concurrent, vagueCall⟩, .vagueName 4 "res"] =
        Smell.on 3 [.missingComment ⟨3, .concurrent, vagueCall⟩, .vagueName 3 "res"] := by
  have hlocal := smells_local ["import x;"] [] [] ["// done"] [] [] vagueCall [] []
    ("import x;\n\n\n" ++ vagueCall ++ "\n\n") ("\n\n" ++ vagueCall ++ "\n\n\n// done")
    "a.spec.ts" "b.spec.ts" (by decide +kernel) (by decide +kernel)
  have hfirst : smellsOf ("import x;\n\n\n" ++ vagueCall ++ "\n\n") =
      .ok [.missingComment ⟨4, .concurrent, vagueCall⟩, .vagueName 4 "res"] := by
    decide +kernel
  have hsecond : smellsOf ("\n\n" ++ vagueCall ++ "\n\n\n// done") =
      .ok [.missingComment ⟨3, .concurrent, vagueCall⟩, .vagueName 3 "res"] := by
    decide +kernel
  exact ⟨hfirst, hsecond, hlocal.2.1 _ _ hfirst hsecond⟩

/-! ### Numerals that are too long -/

/-- The numeral of so many ones. -/
def ones (n : Nat) : Text := List.replicate n '1'

section Ones

variable {n : Nat}

theorem matchAt_ones (hn : 3 ≤ n) :
    Smell.longNumeral.matchAt ⟨none, ones n ++ [], 0⟩ = some ⟨0, ones n, []⟩ := by
  have hdigits : ∀ c ∈ ones n, Text.isDigit c = true := fun c hc =>
    List.eq_of_mem_replicate hc ▸ (by decide)
  have hlast : (ones n).getLast? = some '1' := by
    rw [ones, List.getLast?_replicate, if_neg (by omega)]
  have hhead : (ones n).head? = some '1' := by
    rw [ones, List.head?_replicate, if_neg (by omega)]
  -- a word begins before the first digit and ends behind the last one
  have hbegins : ((none : Option Char).any Text.isWordChar !=
      (ones n ++ []).head?.any Text.isWordChar) = true := by
    rw [List.append_nil, hhead]
    decide
  have hends : ((Place.advance ⟨none, ones n ++ [], 0⟩ (ones n)).before.any Text.isWordChar !=
      (Place.advance ⟨none, ones n ++ [], 0⟩ (ones n)).rest.head?.any Text.isWordChar) = true := by
    rw [Place.advance_rest rfl, Place.advance, hlast]
    rfl
  refine (if_pos hbegins).trans (Pattern.tryAt_run_seq (s := ones n) (r := []) rfl hdigits rfl
    (by simpa [ones] using hn) ((if_pos hends).trans ?_))
  simp [Place.advance]

theorem numeralsOf_ones (hn : 3 ≤ n) : numeralsOf (ones n) = [ones n] := by
  have hne : ones n ≠ [] := by
    rw [ones, ne_eq, List.replicate_eq_nil_iff]
    omega
  have h := Pattern.findAllFrom_hit (h := ⟨0, ones n, []⟩) (r := []) hne (matchAt_ones hn)
  rw [List.append_nil] at h
  rw [numeralsOf, Pattern.findAll, h]
  rfl

theorem hasMagicNumber_ones (hn : DigitLimit.limit < n) :
    Smell.hasMagicNumber (ones n) = .error ⟨n⟩ := by
  have hlimit : 3 ≤ DigitLimit.limit := by decide
  have hlength : (ones n).length = n := List.length_replicate
  change Smell.anyMagic (numeralsOf (ones n)) = _
  rw [numeralsOf_ones (by omega), Smell.anyMagic, readNumeral, hlength, if_pos hn]
  rfl

/-- A first line that is a numeral too long to be read ends the search for smells. -/
theorem smellsOf_ones (hn : DigitLimit.limit < n) (rest : Text) :
    smellsOf (ones n ++ '\n' :: rest) = .error ⟨n⟩ := by
  have hne : n ≠ 0 := Nat.ne_of_gt (Nat.lt_of_le_of_lt (Nat.zero_le _) hn)
  obtain ⟨m, rfl⟩ := Nat.exists_eq_succ_of_ne_zero hne
  have hnewline : '\n' ∉ ones (m + 1) := fun h => absurd (List.eq_of_mem_replicate h) (by decide)
  have htrim : Text.trim (ones (m + 1)) = ones (m + 1) := by
    refine Text.trim_eq_self ⟨rfl, ?_⟩
    rw [ones, List.getLast?_replicate, if_neg hne]
    rfl
  have hcode : isCommentLine (ones (m + 1)) = false := rfl
  rw [smellsOf, Text.lines_append_newline, Text.lines_of_newline_not_mem hnewline, smellsIn,
    List.singleton_append, List.zipIdx_cons, List.mapM_cons, smellsOfLine, htrim, hcode,
    hasMagicNumber_ones hn]
  rfl

end Ones

/-- A numeral that is too long, on another line, takes the smells of a line away. -/
theorem smells_not_local : ¬ ∀ (before behind before' behind' : List Text) (w₁ w₂ w₃ w₄ w₅ : Text)
    (content content' : Text),
    Text.lines content = before ++ [w₁, w₂, w₃, w₄, w₅] ++ behind →
    Text.lines content' = before' ++ [w₁, w₂, w₃, w₄, w₅] ++ behind' →
    (smellsOf content).map (Smell.on (before.length + 3)) =
      (smellsOf content').map (Smell.on (before'.length + 3)) := by
  intro hlocal
  have hnewline : '\n' ∉ ones 4301 := fun h => absurd (List.eq_of_mem_replicate h) (by decide)
  have hlines : Text.lines (ones 4301 ++ '\n' :: ("\n\n" ++ vagueCall ++ "\n\n")) =
      [ones 4301] ++ [[], [], vagueCall, [], []] ++ [] := by
    rw [Text.lines_append_newline, Text.lines_of_newline_not_mem hnewline, List.append_nil]
    exact congrArg _ (by decide +kernel)
  have h := hlocal [ones 4301] [] [] [] [] [] vagueCall [] [] _ ("\n\n" ++ vagueCall ++ "\n\n") hlines
    (by decide +kernel)
  have hsmells : smellsOf ("\n\n" ++ vagueCall ++ "\n\n") =
      .ok [.missingComment ⟨3, .concurrent, vagueCall⟩, .vagueName 3 "res"] := by
    decide +kernel
  rw [smellsOf_ones (by decide), hsmells] at h
  cases h

end SuiteAudit
