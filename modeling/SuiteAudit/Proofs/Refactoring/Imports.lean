import Mathlib.Data.List.TakeWhile
import Mathlib.Tactic.Push
import SuiteAudit.Refactoring.Constants

/-! # Where the imports end

An import begins on a line that starts with the word, wherever in a file that is, and goes on to the
next line on which one can end (`IsImport`).  Declarations are put where the last import before the
first test ends: the lines of a file fall into those up to there and the others in one way
(`exists_importsEnd`), and `importEnd` counts the first ones (`ImportsEnd.importEnd_eq`). -/

namespace SuiteAudit
namespace Extraction

/-- Whether an import begins on a line. -/
def startsImport (line : Text) : Bool := (importStart.matchStart line).isSome

/-- The lines of one import: it begins on the first and ends on the last, and on none before. -/
inductive IsImport : List Text → Prop
  | intro {init : List Text} {last : Text} : (init ++ [last]).head?.any startsImport = true →
      (∀ l ∈ init, endsImport l = false) → endsImport last = true → IsImport (init ++ [last])

/-- Lines that end with an import, with others before and between, or none. -/
inductive UpToImport : List Text → Prop
  | nil : UpToImport []
  | cons {gap lines rest : List Text} : (∀ l ∈ gap, startsImport l = false) → IsImport lines →
      UpToImport rest → UpToImport (gap ++ (lines ++ rest))

/-- The lines that stand before the first test. -/
def beforeTests (lines : List Text) : List Text := lines.takeWhile fun l => !opensTest l

/-- No import stands whole among some lines. -/
def HoldsNoImport (lines : List Text) : Prop := ∀ gap imp rest, lines = gap ++ (imp ++ rest) →
  (∀ l ∈ gap, startsImport l = false) → ¬ IsImport imp

/-- Some lines end with the last import before the first test, or are none where there is no such
import; `after` are the others. -/
structure ImportsEnd (before after : List Text) : Prop where
  imports : UpToImport before
  untested : ∀ l ∈ before, opensTest l = false
  last : HoldsNoImport (beforeTests after)

/-! ### The lines fall apart -/

theorem IsImport.ne_nil {lines : List Text} (h : IsImport lines) : lines ≠ [] := by
  cases h with
  | intro _ _ _ => exact List.concat_ne_nil _ _

theorem opensTest_of_mem_beforeTests {lines : List Text} {l : Text} (h : l ∈ beforeTests lines) :
    opensTest l = false := by
  have := List.mem_takeWhile_imp h
  rwa [Bool.not_eq_true'] at this

/-- All lines fall into those up to the last import before the first test, and the others. -/
theorem exists_importsEnd (lines : List Text) :
    ∃ before after, lines = before ++ after ∧ ImportsEnd before after := by
  by_cases hlast : HoldsNoImport (beforeTests lines)
  · exact ⟨[], lines, rfl, .nil, fun l hl => by (cases hl), hlast⟩
  · unfold HoldsNoImport at hlast
    push Not at hlast
    obtain ⟨gap, imp, rest, e, hgap, himp⟩ := hlast
    have hfree : ∀ l ∈ gap ++ imp, opensTest l = false := fun l hl =>
      opensTest_of_mem_beforeTests (e ▸ List.append_assoc gap imp rest ▸ List.mem_append_left rest hl)
    obtain ⟨others, ho⟩ : beforeTests lines <+: lines := List.takeWhile_prefix _
    rw [e] at ho
    have hshorter : (rest ++ others).length < lines.length := by
      have := List.length_pos_iff.mpr himp.ne_nil
      rw [← ho]
      simp only [List.length_append]
      omega
    obtain ⟨before, after, hsplit, h⟩ := exists_importsEnd (rest ++ others)
    refine ⟨gap ++ (imp ++ before), after, ?_, .cons hgap himp h.imports, fun l hl => ?_, h.last⟩
    · rw [← ho]
      simp only [List.append_assoc]
      rw [hsplit]
    · rw [← List.append_assoc] at hl
      rcases List.mem_append.mp hl with hl | hl
      · exact hfree l hl
      · exact h.untested l hl
termination_by lines.length
decreasing_by exact hshorter

/-! ### How they are counted -/

variable {index found : Nat} {inImport : Bool} {line : Text} {rest : List Text}

theorem importEndFrom_cons (h : opensTest line = false) :
    importEndFrom index inImport found (line :: rest) =
      if (inImport || startsImport line) && endsImport line then
        importEndFrom (index + 1) false (index + 1) rest
      else importEndFrom (index + 1) (inImport || startsImport line) found rest := by
  rw [importEndFrom, if_neg (Bool.eq_false_iff.mp h)]
  rfl

/-- Lines between imports are passed over. -/
theorem importEndFrom_gap : ∀ {gap : List Text} (index : Nat),
    (∀ l ∈ gap, startsImport l = false) → (∀ l ∈ gap, opensTest l = false) →
    importEndFrom index false found (gap ++ rest) =
      importEndFrom (index + gap.length) false found rest
  | [], _, _, _ => rfl
  | line :: gap, index, hstart, htest => by
      have ih := importEndFrom_gap (index + 1) (fun l hl => hstart l (List.mem_cons_of_mem line hl))
        (fun l hl => htest l (List.mem_cons_of_mem line hl))
      rw [List.cons_append, importEndFrom_cons (htest line List.mem_cons_self),
        hstart line List.mem_cons_self, Bool.or_false, Bool.false_and, if_neg Bool.false_ne_true, ih,
        List.length_cons, Nat.add_right_comm, Nat.add_assoc]

/-- Lines of an import before the last one are passed over. -/
theorem importEndFrom_open : ∀ {init : List Text} (index : Nat),
    (∀ l ∈ init, endsImport l = false) → (∀ l ∈ init, opensTest l = false) →
    importEndFrom index true found (init ++ rest) =
      importEndFrom (index + init.length) true found rest
  | [], _, _, _ => rfl
  | line :: init, index, hend, htest => by
      have ih := importEndFrom_open (index + 1) (fun l hl => hend l (List.mem_cons_of_mem line hl))
        (fun l hl => htest l (List.mem_cons_of_mem line hl))
      rw [List.cons_append, importEndFrom_cons (htest line List.mem_cons_self),
        hend line List.mem_cons_self, Bool.and_false, if_neg Bool.false_ne_true, Bool.true_or, ih,
        List.length_cons, Nat.add_right_comm, Nat.add_assoc]

/-- On the first line of an import it plays no part whether one has begun before. -/
theorem importEndFrom_start {lines : List Text} (h : lines.head?.any startsImport = true) :
    importEndFrom index false found lines = importEndFrom index true found lines := by
  cases lines with
  | nil => cases h
  | cons line rest =>
      have hstart : startsImport line = true := h
      cases ht : opensTest line with
      | true => rw [importEndFrom, importEndFrom, if_pos ht, if_pos ht]
      | false => rw [importEndFrom_cons ht, importEndFrom_cons ht, hstart, Bool.or_true, Bool.or_true]

/-- An import is counted when it ends. -/
theorem IsImport.importEndFrom_append {lines : List Text} (h : IsImport lines)
    (htest : ∀ l ∈ lines, opensTest l = false) :
    importEndFrom index false found (lines ++ rest) =
      importEndFrom (index + lines.length) false (index + lines.length) rest := by
  cases h with
  | @intro init last hstart hinit hlast =>
      have hstart : (init ++ [last] ++ rest).head?.any startsImport = true := by
        cases init <;> exact hstart
      have hinit' : ∀ l ∈ init, opensTest l = false := fun l hl => htest l (List.mem_append_left _ hl)
      have hlast' : opensTest last = false := htest last (List.mem_append_right _ List.mem_cons_self)
      rw [importEndFrom_start hstart, List.append_assoc, importEndFrom_open _ hinit hinit',
        List.singleton_append, importEndFrom_cons hlast', hlast, Bool.true_or, Bool.and_true,
        if_pos rfl, List.length_append, List.length_singleton, Nat.add_assoc]

/-- An import that has begun is not counted when it does not end before the first test. -/
theorem importEndFrom_unended : ∀ {lines : List Text} {index : Nat},
    (∀ l ∈ beforeTests lines, endsImport l = false) → importEndFrom index true found lines = found
  | [], _, _ => rfl
  | line :: rest, index, h => by
      cases ht : opensTest line with
      | true => rw [importEndFrom, if_pos ht]
      | false =>
          have e : beforeTests (line :: rest) = line :: beforeTests rest :=
            List.takeWhile_cons_of_pos (by rw [ht]; rfl)
          rw [e] at h
          rw [importEndFrom_cons ht, h line List.mem_cons_self, Bool.and_false,
            if_neg Bool.false_ne_true, Bool.true_or]
          exact importEndFrom_unended fun l hl => h l (List.mem_cons_of_mem line hl)

/-- What begins like an import and ends like one somewhere begins with an import. -/
theorem exists_isImport {lines : List Text} (hs : lines.head?.any startsImport = true) {l : Text}
    (hl : l ∈ lines) (he : endsImport l = true) : ∃ imp rest, lines = imp ++ rest ∧ IsImport imp := by
  obtain ⟨last, hfind⟩ := Option.isSome_iff_exists.mp (List.find?_isSome.mpr ⟨l, hl, he⟩)
  obtain ⟨hlast, init, rest, rfl, hinit⟩ := List.find?_eq_some_iff_append.mp hfind
  refine ⟨init ++ [last], rest, by rw [List.append_assoc]; rfl, .intro ?_ ?_ hlast⟩
  · cases init <;> exact hs
  · exact fun l hl => by rw [← Bool.not_eq_true', hinit l hl]

/-- Where no import ends before the first test none is counted. -/
theorem importEndFrom_none : ∀ {lines : List Text} {index : Nat},
    HoldsNoImport (beforeTests lines) → importEndFrom index false found lines = found
  | [], _, _ => rfl
  | line :: rest, index, h => by
      cases ht : opensTest line with
      | true => rw [importEndFrom, if_pos ht]
      | false =>
          have e : beforeTests (line :: rest) = line :: beforeTests rest :=
            List.takeWhile_cons_of_pos (by rw [ht]; rfl)
          rw [e] at h
          cases hs : startsImport line with
          | false =>
              rw [importEndFrom_cons ht, hs, Bool.or_false, Bool.false_and,
                if_neg Bool.false_ne_true]
              refine importEndFrom_none fun gap imp rest' e' hgap => ?_
              exact h (line :: gap) imp rest' (by rw [e', List.cons_append])
                (List.forall_mem_cons.mpr ⟨hs, hgap⟩)
          | true =>
              have hhead : ∀ others, (line :: others).head?.any startsImport = true := fun _ => hs
              rw [importEndFrom_start (hhead rest)]
              refine importEndFrom_unended fun l hl => Bool.eq_false_iff.mpr fun hend => ?_
              rw [e] at hl
              obtain ⟨imp, rest', e', himp⟩ := exists_isImport (hhead _) hl hend
              exact h [] imp rest' e' (fun l hl => by cases hl) himp

theorem UpToImport.importEndFrom_append {before after : List Text} (h : UpToImport before) :
    ∀ {index : Nat}, (∀ l ∈ before, opensTest l = false) →
    HoldsNoImport (beforeTests after) →
    importEndFrom index false index (before ++ after) = index + before.length := by
  induction h with
  | nil => exact fun _ hlast => importEndFrom_none hlast
  | @cons gap lines rest hgap himport _ ih =>
      intro index htest hlast
      simp only [List.mem_append] at htest
      rw [List.append_assoc, importEndFrom_gap _ hgap fun l hl => htest l (Or.inl hl),
        List.append_assoc, himport.importEndFrom_append fun l hl => htest l (Or.inr (Or.inl hl)),
        ih (fun l hl => htest l (Or.inr (Or.inr hl))) hlast]
      simp only [List.length_append]
      omega

/-- The lines counted are those up to the last import before the first test. -/
theorem ImportsEnd.importEnd_eq {before after : List Text} (h : ImportsEnd before after) :
    importEnd (before ++ after) = before.length := by
  rw [importEnd, h.imports.importEndFrom_append h.untested h.last, Nat.zero_add]

end Extraction
end SuiteAudit
