import SuiteAudit.Proofs.Quality.LookUps

/-! # The default standards keep to their lanes

A check keeps to the lane of a standard on a text (`Checks.InLane`) when it gives violations that bear
the id of the standard, are on lines of the text and are no more severe than the standard, or fails
over the numeral of a fixed wait that is too long to be read.  There is one lemma for each check of a
default standard.  Only two of them read numerals, both by `longWaits` (`Checks.longWaits_cases`).
Together they make `Standard.defaults_keep_lane`. -/

namespace SuiteAudit

/-- The place of a severity among all, the most severe first. -/
def Severity.place (s : Severity) : Nat := Severity.all.idxOf s

/-- A violation under an id, on a line of the text, no more severe than allowed. -/
structure Violation.FitsLane (id : Text) (worst : Severity) (content : Text) (v : Violation) :
    Prop where
  id : v.standardId = id
  line : content.HasLine v.line
  severity : worst.place ≤ v.severity.place

/-- A numeral of a fixed wait in a text is too long to be read. -/
def Literal.HasUnreadableWait (content : Text) (e : DigitLimit) : Prop :=
  ∃ hit ∈ timeoutCall.findAll content,
    DigitLimit.limit < (hit.group 1).length ∧ e = ⟨(hit.group 1).length⟩

namespace Checks

/-- How a check for a standard ends: with violations that all fit, or over an unreadable wait. -/
inductive InLane (id : Text) (worst : Severity) (check : Check) (content path : Text) : Prop
  | gives {violations : List Violation} : check content path = .ok violations →
      (∀ v ∈ violations, v.FitsLane id worst content) → InLane id worst check content path
  | fails {e : DigitLimit} : check content path = .error (.digitLimit e) →
      Literal.HasUnreadableWait content e → InLane id worst check content path

variable (content path : Text)

/-! ### Lists of violations -/

section

variable {content} {id : Text} {worst : Severity}

theorem fits_append {a b : List Violation} (ha : ∀ v ∈ a, v.FitsLane id worst content)
    (hb : ∀ v ∈ b, v.FitsLane id worst content) : ∀ v ∈ a ++ b, v.FitsLane id worst content :=
  List.forall_mem_append.mpr ⟨ha, hb⟩

theorem fits_map {α : Type} {entries : List α} {f : α → Violation}
    (h : ∀ a ∈ entries, (f a).FitsLane id worst content) :
    ∀ v ∈ entries.map f, v.FitsLane id worst content :=
  List.forall_mem_map.mpr h

/-- A violation that is given under a condition. -/
theorem fits_ite {p : Prop} [Decidable p] {v : Violation} (h : v.FitsLane id worst content) :
    ∀ u ∈ (if p then [v] else []), u.FitsLane id worst content := fun u hu => by
  split at hu
  · rwa [List.mem_singleton.mp hu]
  · cases hu

theorem fits_ite_not {p : Prop} [Decidable p] {v : Violation} (h : v.FitsLane id worst content) :
    ∀ u ∈ (if p then [] else [v]), u.FitsLane id worst content := by
  rw [← ite_not]
  exact fits_ite h

/-- A violation on the line of the first mention of a text. -/
theorem fits_lineOfFirst {needle : Text} {f : Nat → Violation}
    (h : ∀ offset, (f (Text.lineAt content offset)).FitsLane id worst content) :
    ∀ v ∈ ((lineOfFirst? content needle).map f).toList, v.FitsLane id worst content := by
  unfold lineOfFirst?
  cases Text.find? needle content with
  | none => simp
  | some offset => simpa using h offset

end

/-! ### Structure -/

theorem inLane_fileStructure : InLane fileStructureId .error fileStructure content path := by
  refine InLane.gives rfl (fits_append (fits_append ?imports ?cases) ?cleaned)
  case imports => exact fits_ite_not ⟨rfl, Text.hasLine_one content, of_decide_eq_true rfl⟩
  case cases => exact fits_ite ⟨rfl, Text.hasLine_one content, of_decide_eq_true rfl⟩
  case cleaned =>
    split
    · simp
    · refine fits_lineOfFirst fun offset => ?_
      exact ⟨rfl, Text.hasLine_lineAt content offset, of_decide_eq_true rfl⟩

theorem inLane_suiteGrouping : InLane suiteGroupingId .warning suiteGrouping content path :=
  InLane.gives rfl (fits_ite_not ⟨rfl, Text.hasLine_one content, of_decide_eq_true rfl⟩)

theorem inLane_independence : InLane independenceId .error independence content path := by
  refine InLane.gives rfl (fits_map fun line hline => ?_)
  obtain ⟨hit, -, rfl⟩ := List.mem_map.mp (List.mem_filter.mp hline).1
  exact ⟨rfl, Text.hasLine_lineAt content hit.offset, of_decide_eq_true rfl⟩

/-! ### Naming -/

theorem inLane_caseDescriptions : InLane descriptionId .warning caseDescriptions content path := by
  refine InLane.gives rfl (List.forall_mem_flatMap.mpr fun hit _ => ?_)
  have hline := Text.hasLine_lineAt content hit.offset
  refine fits_append (fits_ite ?short) (fits_ite ?vague)
  case short => exact ⟨rfl, hline, of_decide_eq_true rfl⟩
  case vague => exact ⟨rfl, hline, of_decide_eq_true rfl⟩

theorem inLane_variableNames : InLane variableId .warning variableNames content path := by
  refine InLane.gives rfl (fits_append (fits_map fun hit _ => ?letter) (fits_map fun hit _ => ?name))
  case letter => exact ⟨rfl, Text.hasLine_lineAt content hit.offset, of_decide_eq_true rfl⟩
  case name => exact ⟨rfl, Text.hasLine_lineAt content hit.offset, of_decide_eq_true rfl⟩

theorem inLane_pageObjectNames : InLane pageObjectId .info pageObjectNames content path := by
  refine InLane.gives rfl fun v hv => ?_
  obtain ⟨hit, -, hhit⟩ := List.mem_filterMap.mp hv
  dsimp only at hhit
  split at hhit
  · cases hhit
  · rw [← Option.some.inj hhit]
    exact ⟨rfl, Text.hasLine_lineAt content hit.offset, of_decide_eq_true rfl⟩

/-! ### Documentation -/

theorem inLane_fileHeader : InLane headerId .warning fileHeader content path :=
  InLane.gives rfl (fits_ite_not ⟨rfl, Text.hasLine_one content, of_decide_eq_true rfl⟩)

theorem inLane_complexLogicComments :
    InLane complexLogicId .info complexLogicComments content path := by
  refine InLane.gives rfl (fits_map fun finding hf => ?_)
  exact ⟨rfl, hasLine_of_mem_commentFindings hf, of_decide_eq_true rfl⟩

theorem inLane_testDataDocumentation :
    InLane testDataId .info testDataDocumentation content path := by
  refine InLane.gives rfl (fits_map fun line hline => ?_)
  obtain ⟨hit, -, rfl⟩ := List.mem_map.mp (List.mem_filter.mp hline).1
  exact ⟨rfl, Text.hasLine_lineAt content hit.offset, of_decide_eq_true rfl⟩

/-! ### Maintainability -/

theorem inLane_caseLength : InLane lengthId .warning caseLength content path := by
  refine InLane.gives rfl (fits_map fun b hb => ?_)
  exact ⟨rfl, hasLine_of_mem_casesOf (List.mem_filter.mp hb).1, of_decide_eq_true rfl⟩

/-- A repeated line is reported where it occurs first. -/
theorem inLane_duplicateCode : InLane duplicateId .warning duplicateCode content path := by
  refine InLane.gives rfl (fits_map fun d hd => ⟨rfl, ?_, of_decide_eq_true rfl⟩)
  obtain ⟨n, rest, e⟩ := exists_firstLine hd
  have hline : content.HasLine n := (DuplicateLine.of_mem_find hd).2 n (e ▸ List.mem_cons_self)
  rwa [repeatedLine, e]

theorem inLane_selectorQuality : InLane selectorId .warning selectorQuality content path := by
  refine InLane.gives rfl (fits_append (fits_map fun hit _ => ?deep) ?ids)
  case deep => exact ⟨rfl, Text.hasLine_lineAt content hit.offset, of_decide_eq_true rfl⟩
  case ids => exact fits_ite ⟨rfl, Text.hasLine_one content, of_decide_eq_true rfl⟩

/-! ### Fixed waits -/

/-- The wait of a hit, with its line and its time, when its numeral can be read. -/
def waitOf (content : Text) (hit : Hit) : Except DigitLimit (Nat × Nat) :=
  (readNumeral (hit.group 1)).map fun ms => (Text.lineAt content hit.offset, ms)

/-- Either all numerals can be read, and each wait is on the line of a hit, or one is too long. -/
theorem mapM_waitOf (hits : List Hit) :
    (∃ waits, hits.mapM (waitOf content) = .ok waits ∧
        ∀ p ∈ waits, ∃ offset, p.1 = Text.lineAt content offset) ∨
      ∃ hit ∈ hits, DigitLimit.limit < (hit.group 1).length ∧
        hits.mapM (waitOf content) = .error ⟨(hit.group 1).length⟩ := by
  induction hits with
  | nil => exact .inl ⟨[], rfl, by simp⟩
  | cons hit hits ih =>
      rw [List.mapM_cons]
      by_cases hlong : DigitLimit.limit < (hit.group 1).length
      · have hread : waitOf content hit = .error ⟨(hit.group 1).length⟩ := by
          rw [waitOf, readNumeral, if_pos hlong]
          rfl
        exact .inr ⟨hit, List.mem_cons_self, hlong, by rw [hread]; rfl⟩
      · have hread : waitOf content hit =
            .ok (Text.lineAt content hit.offset, Text.digitsToNat (hit.group 1)) := by
          rw [waitOf, readNumeral, if_neg hlong]
          rfl
        rw [hread]
        rcases ih with ⟨waits, hwaits, hlines⟩ | ⟨late, hmem, hlate, herror⟩
        · refine .inl ⟨_ :: waits, by rw [hwaits]; rfl, ?_⟩
          exact List.forall_mem_cons.mpr ⟨⟨hit.offset, rfl⟩, hlines⟩
        · exact .inr ⟨late, List.mem_cons_of_mem _ hmem, hlate, by rw [herror]; rfl⟩

/-- The long waits are on lines of hits, unless a numeral is too long. -/
theorem longWaits_cases :
    (∃ waits, longWaits content = .ok waits ∧
        ∀ p ∈ waits, ∃ offset, p.1 = Text.lineAt content offset) ∨
      ∃ e, longWaits content = .error e ∧ Literal.HasUnreadableWait content e := by
  have heq : longWaits content = ((Literal.timeoutCall.findAll content).mapM (waitOf content)).map
      (·.filter fun p => maxFixedWait < p.2) := by
    unfold longWaits waitOf
    rfl
  rcases mapM_waitOf content (Literal.timeoutCall.findAll content) with
    ⟨waits, hwaits, hlines⟩ | ⟨hit, hmem, hlong, herror⟩
  · rw [heq, hwaits]
    exact .inl ⟨_, rfl, fun p hp => hlines p (List.mem_filter.mp hp).1⟩
  · rw [heq, herror]
    exact .inr ⟨_, rfl, hit, hmem, hlong, rfl⟩

theorem inLane_hardCodedValues : InLane hardCodedId .info hardCodedValues content path := by
  rcases longWaits_cases content with ⟨waits, hwaits, hlines⟩ | ⟨e, herror, he⟩
  · have hok : hardCodedValues content path = .ok
        (waits.map (fun p => hardCodedWait p.1 p.2) ++
          ((Literal.longText.findAll content).filter fun hit =>
            Literal.looksLikeTestData (hit.group 2)).map fun hit =>
              hardCodedData (Text.lineAt content hit.offset)) := by
      unfold hardCodedValues
      rw [hwaits]
      rfl
    refine InLane.gives hok (fits_append (fits_map fun p hp => ?wait) (fits_map fun hit _ => ?data))
    case wait =>
      obtain ⟨offset, hline⟩ := hlines p hp
      refine ⟨rfl, ?_, of_decide_eq_true rfl⟩
      simpa [hardCodedWait, hline] using Text.hasLine_lineAt content offset
    case data => exact ⟨rfl, Text.hasLine_lineAt content hit.offset, of_decide_eq_true rfl⟩
  · refine .fails ?_ he
    unfold hardCodedValues
    rw [herror]
    rfl

theorem inLane_waitStrategies : InLane waitId .warning waitStrategies content path := by
  rcases longWaits_cases content with ⟨waits, hwaits, hlines⟩ | ⟨e, herror, he⟩
  · have hok : waitStrategies content path = .ok (waits.map fun p => fixedDelay p.1) := by
      unfold waitStrategies
      rw [hwaits]
      rfl
    refine InLane.gives hok (fits_map fun p hp => ?_)
    obtain ⟨offset, hline⟩ := hlines p hp
    refine ⟨rfl, ?_, of_decide_eq_true rfl⟩
    simpa [fixedDelay, hline] using Text.hasLine_lineAt content offset
  · refine .fails ?_ he
    unfold waitStrategies
    rw [herror]
    rfl

theorem inLane_resourceCleanup : InLane cleanupId .error resourceCleanup content path := by
  refine InLane.gives rfl ?_
  split
  · simp
  · refine fits_lineOfFirst fun offset => ?_
    exact ⟨rfl, Text.hasLine_lineAt content offset, of_decide_eq_true rfl⟩

end Checks

/-! ### All standards -/

namespace Standard

/-- A standard whose check keeps to its lane on a text. -/
def KeepsLane (content path : Text) (s : Standard) : Prop :=
  Checks.InLane s.id s.severity s.check content path

variable (content path : Text)

theorem structural_keep_lane : ∀ s ∈ structural, s.KeepsLane content path := by
  simp only [structural, List.forall_mem_cons, List.not_mem_nil, false_implies, implies_true, and_true]
  exact ⟨Checks.inLane_fileStructure content path, Checks.inLane_suiteGrouping content path,
    Checks.inLane_independence content path⟩

theorem naming_keep_lane : ∀ s ∈ naming, s.KeepsLane content path := by
  simp only [naming, List.forall_mem_cons, List.not_mem_nil, false_implies, implies_true, and_true]
  exact ⟨Checks.inLane_caseDescriptions content path, Checks.inLane_variableNames content path,
    Checks.inLane_pageObjectNames content path⟩

theorem documentation_keep_lane : ∀ s ∈ documentation, s.KeepsLane content path := by
  simp only [documentation, List.forall_mem_cons, List.not_mem_nil, false_implies, implies_true,
    and_true]
  exact ⟨Checks.inLane_fileHeader content path, Checks.inLane_complexLogicComments content path,
    Checks.inLane_testDataDocumentation content path⟩

theorem maintainability_keep_lane : ∀ s ∈ maintainability, s.KeepsLane content path := by
  simp only [maintainability, List.forall_mem_cons, List.not_mem_nil, false_implies, implies_true,
    and_true]
  exact ⟨Checks.inLane_caseLength content path, Checks.inLane_duplicateCode content path,
    Checks.inLane_hardCodedValues content path, Checks.inLane_selectorQuality content path⟩

theorem performance_keep_lane : ∀ s ∈ performance, s.KeepsLane content path := by
  simp only [performance, List.forall_mem_cons, List.not_mem_nil, false_implies, implies_true,
    and_true]
  exact ⟨Checks.inLane_waitStrategies content path, Checks.inLane_resourceCleanup content path⟩

/-- Whatever the checks of the default standards look up about a text is there, and each default
standard reports on every text and path under its own id, on lines of the text and no more severely
than declared; it fails only where the numeral of a fixed wait is longer than can be read. -/
theorem defaults_keep_lane :
    Checks.Grounded content ∧ ∀ s ∈ defaults, s.KeepsLane content path := by
  refine ⟨Checks.grounded content, ?_⟩
  simp only [defaults, List.forall_mem_append]
  exact ⟨⟨⟨⟨structural_keep_lane content path, naming_keep_lane content path⟩,
    documentation_keep_lane content path⟩, maintainability_keep_lane content path⟩,
    performance_keep_lane content path⟩

/-- A test case that waits for five seconds on its second line. -/
def slowCase : Text := "test('logs in', () =>\n  page.waitForTimeout(5000));"

/-- The last standard but one reports the wait on the second line, as severe as it declares. -/
theorem slowCase_keeps_lane : ∃ s ∈ defaults, s.id = Checks.waitId ∧ s.KeepsLane slowCase [] ∧
    s.check slowCase [] = .ok [Checks.fixedDelay 2] := by
  have hmem : ∀ s ∈ performance, s ∈ defaults := fun s hs => List.mem_append_right _ hs
  have hfirst := hmem _ List.mem_cons_self
  exact ⟨_, hfirst, rfl, (defaults_keep_lane slowCase []).2 _ hfirst, rfl⟩

end Standard
end SuiteAudit
