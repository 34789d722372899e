import Mathlib.Data.List.Forall2
import SuiteAudit.Maintainability.Smell
import SuiteAudit.Proofs.Source.Obscure
import SuiteAudit.Quality.Checks.Documentation

/-! # Two reporters of missing comments

The smells of a file are read line by line, comments passed over, while the check of complex logic
reports every finding.  So the lines with a smell of missing comments are those with a violation that
are no comments (`missingLines_of_smellsOf`), and the two report the same lines exactly when no
finding is a comment itself and the numerals of the code can be read (`missingLines_eq_iff`).  A call
that is commented out is such a finding (`commented_out_call`). -/

namespace SuiteAudit

variable {lines : List Text} {index : Nat} {line : Text} {smells : List Smell}

/-- What a step gives for each entry is what all steps give, one behind the other. -/
theorem forall₂_of_mapM_ok {ε α β : Type} {f : α → Except ε β} : ∀ {as : List α} {bs : List β},
    as.mapM f = .ok bs → List.Forall₂ (fun a b => f a = .ok b) as bs
  | [], bs, h => Except.ok.inj h ▸ .nil
  | a :: as, bs, h => by
      rw [List.mapM_cons] at h
      cases ha : f a with
      | error e => rw [ha] at h; cases h
      | ok b =>
          cases has : as.mapM f with
          | error e => rw [ha, has] at h; cases h
          | ok rest =>
              rw [ha, has] at h
              exact Except.ok.inj h ▸ .cons ha (forall₂_of_mapM_ok has)

theorem exists_mapM_ok_iff {ε α β : Type} {f : α → Except ε β} : ∀ {as : List α},
    (∃ bs, as.mapM f = .ok bs) ↔ ∀ a ∈ as, ∃ b, f a = .ok b
  | [] => ⟨fun _ a ha => absurd ha List.not_mem_nil, fun _ => ⟨[], rfl⟩⟩
  | a :: as => by
      rw [List.forall_mem_cons, ← exists_mapM_ok_iff, List.mapM_cons]
      cases f a with
      | error e => simp [bind, Except.bind]
      | ok b => cases as.mapM f <;> simp [bind, Except.bind, pure, Except.pure]

/-! ### Numerals that can be read -/

/-- A numeral that is not too long and stands for a magic number. -/
def EndsReading (numeral : Text) : Prop :=
  numeral.length ≤ DigitLimit.limit ∧ Smell.isMagic (Text.digitsToNat numeral) = true

/-- No numeral is too long, unless the reading ends before it. -/
def AreReadable (numerals : List Text) : Prop :=
  ∀ before numeral behind, numerals = before ++ numeral :: behind →
    DigitLimit.limit < numeral.length → ∃ earlier ∈ before, EndsReading earlier

theorem areReadable_cons {numeral : Text} {rest : List Text} : AreReadable (numeral :: rest) ↔
    numeral.length ≤ DigitLimit.limit ∧ (EndsReading numeral ∨ AreReadable rest) := by
  constructor
  · intro h
    have hshort : numeral.length ≤ DigitLimit.limit := Nat.not_lt.mp fun hlong => by
      obtain ⟨_, hmem, -⟩ := h [] numeral rest rfl hlong
      cases hmem
    refine ⟨hshort, or_iff_not_imp_left.mpr fun hgoes before long behind e hlong => ?_⟩
    obtain ⟨earlier, hmem, hends⟩ := h (numeral :: before) long behind (by rw [e]; rfl) hlong
    rcases List.mem_cons.mp hmem with rfl | hmem
    · exact absurd hends hgoes
    · exact ⟨earlier, hmem, hends⟩
  · rintro ⟨hshort, hrest⟩ before long behind e hlong
    cases before with
    | nil =>
        obtain ⟨rfl, -⟩ := List.cons.inj e
        omega
    | cons first before =>
        obtain ⟨rfl, erest⟩ := List.cons.inj e
        rcases hrest with hends | hrest
        · exact ⟨_, List.mem_cons_self, hends⟩
        · obtain ⟨earlier, hmem, hends⟩ := hrest before long behind erest hlong
          exact ⟨earlier, List.mem_cons_of_mem _ hmem, hends⟩

theorem anyMagic_ok_iff : ∀ {numerals : List Text},
    (∃ magic, Smell.anyMagic numerals = .ok magic) ↔ AreReadable numerals
  | [] => by
      refine ⟨fun _ before _ _ e => ?_, fun _ => ⟨false, rfl⟩⟩
      cases before <;> cases e
  | numeral :: rest => by
      rw [areReadable_cons, Smell.anyMagic]
      by_cases hlong : DigitLimit.limit < numeral.length
      · rw [readNumeral, if_pos hlong]
        refine ⟨fun h => ?_, fun h => absurd hlong (Nat.not_lt.mpr h.1)⟩
        obtain ⟨_, h⟩ := h
        cases h
      · have hshort := Nat.not_lt.mp hlong
        rw [readNumeral, if_neg hlong, ← anyMagic_ok_iff]
        cases hmagic : Smell.isMagic (Text.digitsToNat numeral) with
        | true => simp [bind, Except.bind, pure, Except.pure, EndsReading, hmagic, hshort]
        | false => simp [bind, Except.bind, EndsReading, hmagic, hshort]

/-! ### The smells of a line -/

/-- The numerals of a line that are looked at, in order. -/
def numeralsOf (line : Text) : List Text := (Smell.longNumeral.findAll line).map (·.text)

/-- The numbers of the lines with a smell of missing comments. -/
def missingLines (smells : List Smell) : List Int :=
  (smells.filter fun s => s.kind = .missingComments).map (·.line)

theorem smellsOfLine_ok_iff : (∃ smells, smellsOfLine lines index line = .ok smells) ↔
    (isCommentLine (Text.trim line) = false → AreReadable (numeralsOf (Text.trim line))) := by
  rw [← anyMagic_ok_iff, smellsOfLine]
  cases hcomment : isCommentLine (Text.trim line) with
  | true => simp [pure, Except.pure]
  | false =>
      change _ ↔ (_ → ∃ magic, Smell.hasMagicNumber (Text.trim line) = .ok magic)
      cases Smell.hasMagicNumber (Text.trim line) <;> simp [bind, Except.bind, pure, Except.pure]

theorem missingLines_append (s t : List Smell) :
    missingLines (s ++ t) = missingLines s ++ missingLines t := by
  rw [missingLines, List.filter_append, List.map_append]
  rfl

/-- A smell of another kind or none. -/
theorem missingLines_ite {s : Smell} (hs : s.kind ≠ .missingComments) (c : Prop) [Decidable c] :
    missingLines (if c then [s] else []) = [] := by
  split <;> simp [missingLines, hs]

/-- A line of code has this smell when it is a finding, and a comment never has. -/
theorem missingLines_of_smellsOfLine (h : smellsOfLine lines index line = .ok smells) :
    missingLines smells = if isCommentLine (Text.trim line) then []
      else ((commentFindingAt? lines index line).map fun f => (f.line : Int)).toList := by
  rw [smellsOfLine] at h
  cases hcomment : isCommentLine (Text.trim line) with
  | true =>
      simp only [hcomment, if_true] at h
      obtain rfl := Except.ok.inj h
      rfl
  | false =>
      cases hmagic : Smell.hasMagicNumber (Text.trim line) with
      | error e => simp [hcomment, hmagic, bind, Except.bind] at h
      | ok magic =>
          simp only [hcomment, hmagic, bind, Except.bind, pure, Except.pure] at h
          obtain rfl := Except.ok.inj h
          have hvague : missingLines ((Smell.vagueDeclaration.find? (Text.trim line)).map fun hit =>
              Smell.vagueName (index + 1) (hit.group 1)).toList = [] := by
            cases Smell.vagueDeclaration.find? (Text.trim line) <;> rfl
          have hmissing : missingLines
              ((commentFindingAt? lines index line).map Smell.missingComment).toList =
              ((commentFindingAt? lines index line).map fun f => (f.line : Int)).toList := by
            cases commentFindingAt? lines index line <;> rfl
          simp only [missingLines_append, hvague, hmissing,
            missingLines_ite (s := Smell.hardCodedText (index + 1)) nofun,
            missingLines_ite (s := Smell.longLine (index + 1)) nofun,
            missingLines_ite (s := Smell.magicNumber (index + 1)) nofun,
            missingLines_ite (s := Smell.complexSelector (index + 1)) nofun]
          simp

/-! ### All lines -/

/-- The line of a number is nothing but a comment. -/
def isCommentAt (content : Text) (n : Int) : Bool :=
  (Text.lines content)[(n - 1).toNat]?.any fun line => isCommentLine (Text.trim line)

theorem isCommentAt_of_mem {content : Text} {p : Text × Nat} (hp : p ∈ (Text.lines content).zipIdx) :
    isCommentAt content ((p.2 + 1 : Nat) : Int) = isCommentLine (Text.trim p.1) := by
  have hindex : (((p.2 + 1 : Nat) : Int) - 1).toNat = p.2 := by omega
  rw [isCommentAt, hindex, List.mem_zipIdx_iff_getElem?.mp hp]
  rfl

theorem smellsOf_eq_ok_iff {content : Text} : smellsOf content = .ok smells ↔
    ∃ all, (Text.lines content).zipIdx.mapM
      (fun p => smellsOfLine (Text.lines content) p.2 p.1) = .ok all ∧ all.flatten = smells := by
  rw [smellsOf, smellsIn]
  cases (Text.lines content).zipIdx.mapM fun p => smellsOfLine (Text.lines content) p.2 p.1 <;>
    simp [Except.map]

theorem smellsOf_ok_iff {content : Text} : (∃ smells, smellsOf content = .ok smells) ↔
    ∀ line ∈ Text.lines content, isCommentLine (Text.trim line) = false →
      AreReadable (numeralsOf (Text.trim line)) := by
  have hall : (∃ smells, smellsOf content = .ok smells) ↔
      ∃ all, (Text.lines content).zipIdx.mapM
        (fun p => smellsOfLine (Text.lines content) p.2 p.1) = .ok all := by
    simp only [smellsOf_eq_ok_iff]
    exact ⟨fun ⟨_, all, h, _⟩ => ⟨all, h⟩, fun ⟨all, h⟩ => ⟨_, all, h, rfl⟩⟩
  have hfst := List.zipIdx_map_fst 0 (Text.lines content)
  rw [hall, exists_mapM_ok_iff]
  simp only [smellsOfLine_ok_iff]
  conv => rhs; rw [← hfst, List.forall_mem_map]

theorem missingLines_flatten {numbered : List (Text × Nat)} {all : List (List Smell)}
    (h : List.Forall₂ (fun p s => smellsOfLine lines p.2 p.1 = .ok s) numbered all) :
    missingLines all.flatten = numbered.flatMap fun p => if isCommentLine (Text.trim p.1) then []
      else ((commentFindingAt? lines p.2 p.1).map fun f => (f.line : Int)).toList := by
  induction h with
  | nil => rfl
  | cons hline _ ih =>
      rw [List.flatten_cons, missingLines_append, List.flatMap_cons, ih,
        missingLines_of_smellsOfLine hline]

/-- The lines with this smell are those of the findings that are no comments. -/
theorem missingLines_of_smellsOf {content : Text} (h : smellsOf content = .ok smells) :
    missingLines smells = ((commentFindings content).map fun f => (f.line : Int)).filter
      fun n => !isCommentAt content n := by
  obtain ⟨all, hall, rfl⟩ := smellsOf_eq_ok_iff.mp h
  rw [missingLines_flatten (forall₂_of_mapM_ok hall), commentFindings, commentFindingsIn,
    List.map_filterMap, List.filterMap_eq_flatMap_toList, List.filter_flatMap]
  refine List.flatMap_congr fun p hp => ?_
  cases hf : commentFindingAt? (Text.lines content) p.2 p.1 with
  | none => simp
  | some f =>
      have hcomment := isCommentAt_of_mem hp
      have hline : f.line = p.2 + 1 := congrArg (·.line) (eq_of_commentFindingAt? hf).2
      rw [← hline] at hcomment
      rw [← hcomment]
      cases hc : isCommentAt content f.line <;> simp [hc]

/-- The check reports all findings, and never fails.  The smells can be had exactly when the numerals
of the code can be read; then those of missing comments are on the lines of the violations that are no
comments, so that the lines are the same exactly when no violation is on a comment. -/
theorem missingLines_eq_iff (content path : Text) :
    ∃ violations, Checks.complexLogicComments content path = .ok violations ∧
      (∀ v ∈ violations, v.standardId = Checks.complexLogicId) ∧
      ((∃ smells, smellsOf content = .ok smells) ↔
        ∀ line ∈ Text.lines content, isCommentLine (Text.trim line) = false →
          AreReadable (numeralsOf (Text.trim line))) ∧
      ∀ smells, smellsOf content = .ok smells →
        missingLines smells = (violations.map (·.line)).filter (fun n => !isCommentAt content n) ∧
        (missingLines smells = violations.map (·.line) ↔
          ∀ v ∈ violations, isCommentAt content v.line = false) := by
  refine ⟨_, rfl, ?_, smellsOf_ok_iff, fun smells h => ?_⟩
  · exact List.forall_mem_map.mpr fun f _ => rfl
  · have hlines : ((commentFindings content).map Checks.unexplained).map (·.line) =
        (commentFindings content).map fun f => (f.line : Int) := List.map_map
    rw [hlines, missingLines_of_smellsOf h]
    refine ⟨rfl, ?_⟩
    rw [List.filter_eq_self, List.forall_mem_map, List.forall_mem_map]
    simp only [Bool.not_eq_true']
    rfl

/-- A call that is explained where it stands first, one that is commented out, and one of the code. -/
def threeCalls : Text :=
  "// waits for the list\nawait Promise.all(calls);\n\n\n\n// await Promise.all(calls);\n\n\n\n" ++
    "await Promise.all(calls);"

/-- Of the two calls that are not explained the check reports both, and the one of the code smells. -/
theorem threeCalls_lines : ∃ violations smells,
    Checks.complexLogicComments threeCalls "a.spec.ts" = .ok violations ∧
      smellsOf threeCalls = .ok smells ∧ violations.map (·.line) = [6, 10] ∧
      missingLines smells =
        (violations.map (·.line)).filter (fun n => !isCommentAt threeCalls n) ∧
      missingLines smells = [10] := by
  obtain ⟨violations, hviolations, -, -, hlines⟩ := missingLines_eq_iff threeCalls "a.spec.ts"
  have hsmells : smellsOf threeCalls =
      .ok [Smell.missingComment ⟨10, .concurrent, "await Promise.all(calls);"⟩] := by
    decide +kernel
  have hfound : (commentFindings threeCalls).map (fun f => (f.line : Int)) = [6, 10] := by
    decide +kernel
  obtain rfl := Except.ok.inj hviolations
  refine ⟨_, _, rfl, hsmells, ?_, (hlines _ hsmells).1, rfl⟩
  rw [List.map_map]
  exact hfound

/-- A call that is commented out. -/
def commentedOutCall : Text := "// await Promise.all(calls);"

/-- The check reports it, and it is no smell. -/
theorem commented_out_call : smellsOf commentedOutCall = .ok [] ∧
    Checks.complexLogicComments commentedOutCall "a.spec.ts" =
      .ok [Checks.unexplained ⟨1, .concurrent, commentedOutCall⟩] := by
  have hfound : commentFindings commentedOutCall = [⟨1, .concurrent, commentedOutCall⟩] := by
    decide +kernel
  refine ⟨by decide +kernel, ?_⟩
  rw [Checks.complexLogicComments, hfound]
  rfl

end SuiteAudit
