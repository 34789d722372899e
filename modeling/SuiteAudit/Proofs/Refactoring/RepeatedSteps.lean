import SuiteAudit.Proofs.Refactoring.SharedNames
import SuiteAudit.Proofs.Source.RepeatedLines

/-! # Repeated steps

Windows of three lines of code are gathered by their text.  What comes of it is what a look at every
two positions would give (`repetitions`): the steps that could be a helper and stand at two
positions or more, each where it stands first (`repeated_eq`).  Every repetition gets its change,
under the name that the context has for it in the end (`changes_foldl_add`), so that these are the
changes of the whole proposal which make helpers (`proposes_repetitions`). -/

namespace SuiteAudit
namespace Methods

variable {content : Text} {code : List (Nat × Text)} {i j n : Nat} {text : Text}

/-! ### Lines of code -/

/-- The numbered lines of a text, trimmed, that are neither blank nor nothing but a comment. -/
structure IsCode (content : Text) (code : List (Nat × Text)) : Prop where
  mem_iff : ∀ n text, (n, text) ∈ code ↔ ∃ i line, n = i + 1 ∧
    (Text.lines content)[i]? = some line ∧ text = Text.trim line ∧ text ≠ [] ∧
      isCommentLine text = false
  increasing : code.Pairwise fun p q => p.1 < q.1

theorem isCode_codeLines (content : Text) : IsCode content (codeLines content) where
  mem_iff n text := by
    simp only [codeLines, List.mem_filterMap, Prod.exists,
      List.mk_mem_zipIdx_iff_le_and_getElem?_sub]
    constructor
    · rintro ⟨line, m, ⟨hle, hline⟩, h⟩
      split at h
      · cases h
      · next hkept =>
        obtain ⟨rfl, rfl⟩ := Prod.mk.inj (Option.some.inj h)
        simp only [Bool.or_eq_true, List.isEmpty_iff, not_or, Bool.not_eq_true] at hkept
        exact ⟨m - 1, line, (Nat.sub_add_cancel hle).symm, hline, rfl, hkept⟩
    · rintro ⟨i, line, rfl, hline, rfl, hne, hcomment⟩
      refine ⟨line, i + 1, ⟨Nat.le_add_left 1 i, hline⟩, ?_⟩
      simp [hne, hcomment]
  increasing := by
    refine (DuplicateLine.pairwise_numbered (Text.lines content)).filterMap _ ?_
    have hnumber : ∀ {p : Text × Nat} {a : Nat × Text},
        (if (Text.trim p.1).isEmpty || isCommentLine (Text.trim p.1) then none
          else some (p.2, Text.trim p.1)) = some a → a.1 = p.2 := by
      intro p a h
      split at h
      · cases h
      · exact congrArg Prod.fst (Option.some.inj h).symm
    intro p q hlt a ha b hb
    rw [hnumber ha, hnumber hb]
    exact hlt

theorem IsCode.newline_not_mem (h : IsCode content code) : ∀ p ∈ code, '\n' ∉ p.2 := by
  intro p hp hn
  obtain ⟨i, line, -, hline, htrim, -⟩ := (h.mem_iff p.1 p.2).mp hp
  rw [htrim] at hn
  exact Text.newline_not_mem_of_mem_lines content (List.mem_of_getElem? hline)
    ((Text.infix_of_trim line).mem hn)

/-! ### Repetitions -/

/-- Three consecutive lines of code from a position on. -/
def stepsAt (code : List (Nat × Text)) (i : Nat) : List Text := ((code.drop i).take 3).map (·.2)

/-- The number of the line of code at a position. -/
def lineAt (code : List (Nat × Text)) (i : Nat) : Nat := (code.getD i (0, [])).1

/-- All positions at which some steps stand, also where they overlap. -/
def positionsOf (code : List (Nat × Text)) (steps : List Text) : List Nat :=
  (List.range (code.length - 2)).filter fun i => stepsAt code i = steps

/-- No step opens a test case or a suite, and their text has as many opening as closing braces. -/
def CouldBeHelper (steps : List Text) : Prop :=
  (∀ line ∈ steps, Extraction.opensTest line = false) ∧
    (Text.joinLines steps).count '\x7b' = (Text.joinLines steps).count '\x7d'

instance (steps : List Text) : Decidable (CouldBeHelper steps) :=
  inferInstanceAs (Decidable (_ ∧ _))

/-- The positions at which steps stand for the first time that could be a helper and stand at two
positions or more. -/
def firstPositions (code : List (Nat × Text)) : List Nat :=
  (List.range (code.length - 2)).filter fun i => CouldBeHelper (stepsAt code i) ∧
    (positionsOf code (stepsAt code i)).head? = some i ∧
    2 ≤ (positionsOf code (stepsAt code i)).length

/-- Steps that stand at several positions: the text, the line of the first one, and how many there
are. -/
structure Repetition where
  text : Text
  line : Nat
  count : Nat
  deriving DecidableEq

/-- All repeated steps, in the order in which they first stand. -/
def repetitions (code : List (Nat × Text)) : List Repetition :=
  (firstPositions code).map fun i =>
    ⟨Text.joinLines (stepsAt code i), lineAt code i, (positionsOf code (stepsAt code i)).length⟩

theorem windows_eq : ∀ code : List (Nat × Text),
    windows code = (List.range (code.length - 2)).map fun i => (code.drop i).take 3
  | [] => rfl
  | [_] => rfl
  | [_, _] => rfl
  | a :: b :: c :: rest => by
      have hlength : (a :: b :: c :: rest).length - 2 = (b :: c :: rest).length - 2 + 1 := by
        simp only [List.length_cons]
        omega
      rw [windows, windows_eq (b :: c :: rest), hlength, List.range_succ_eq_map, List.map_cons,
        List.map_map]
      rfl

theorem isCandidate_iff {window : List (Nat × Text)} :
    isCandidate window = true ↔ CouldBeHelper (window.map (·.2)) := by
  simp only [isCandidate, CouldBeHelper, snippetOf, Text.countChar, Bool.and_eq_true,
    Bool.not_eq_true', List.any_eq_false, beq_iff_eq, List.forall_mem_map, Bool.not_eq_true]

theorem length_stepsAt (hi : i < code.length - 2) : (stepsAt code i).length = 3 := by
  rw [stepsAt, List.length_map, List.length_take, List.length_drop]
  omega

/-- Steps are known by their text, as none of them holds a line feed. -/
theorem joinLines_stepsAt_inj (hcode : ∀ p ∈ code, '\n' ∉ p.2) (hi : i < code.length - 2)
    (hj : j < code.length - 2) :
    Text.joinLines (stepsAt code i) = Text.joinLines (stepsAt code j) ↔
      stepsAt code i = stepsAt code j := by
  have hlines : ∀ {i : Nat}, i < code.length - 2 →
      Text.lines (Text.joinLines (stepsAt code i)) = stepsAt code i := by
    intro i hi
    refine Text.lines_joinLines (List.ne_nil_of_length_pos (by rw [length_stepsAt hi]; decide)) ?_
    refine List.forall_mem_map.mpr fun p hp => hcode p ?_
    exact List.mem_of_mem_drop (List.mem_of_mem_take hp)
  exact ⟨fun h => by rw [← hlines hi, h, hlines hj], fun h => by rw [h]⟩

theorem head?_window (hi : i < code.length - 2) :
    (((code.drop i).take 3).head?.map (·.1)).toList = [lineAt code i] := by
  have hlt : i < code.length := by omega
  rw [List.drop_eq_getElem_cons hlt, lineAt, List.getD_eq_getElem?_getD,
    List.getElem?_eq_getElem hlt]
  rfl

/-- The positions with steps that could be a helper. -/
def candidates (code : List (Nat × Text)) : List Nat :=
  (List.range (code.length - 2)).filter fun i => CouldBeHelper (stepsAt code i)

theorem filter_windows (code : List (Nat × Text)) :
    (windows code).filter isCandidate = (candidates code).map fun i => (code.drop i).take 3 := by
  rw [windows_eq, List.filter_map, candidates]
  refine congrArg (List.map _) (List.filter_congr fun i _ => ?_)
  rw [Bool.eq_iff_iff, Function.comp_apply, isCandidate_iff, decide_eq_true_iff]
  rfl

/-- Where some steps could be a helper, so they could at all positions with their text. -/
theorem filter_candidates (hcode : ∀ p ∈ code, '\n' ∉ p.2) (hi : i ∈ candidates code) :
    (candidates code).filter
        (fun j => Text.joinLines (stepsAt code j) = Text.joinLines (stepsAt code i)) =
      positionsOf code (stepsAt code i) := by
  obtain ⟨hrange, hhelper⟩ := List.mem_filter.mp hi
  rw [candidates, List.filter_filter, positionsOf]
  refine List.filter_congr fun j hj => ?_
  rw [Bool.eq_iff_iff, Bool.and_eq_true, decide_eq_true_iff, decide_eq_true_iff, decide_eq_true_iff,
    joinLines_stepsAt_inj hcode (List.mem_range.mp hj) (List.mem_range.mp hrange),
    and_iff_left_iff_imp]
  exact fun h => h ▸ of_decide_eq_true hhelper

theorem firstPositions_eq (hcode : ∀ p ∈ code, '\n' ∉ p.2) :
    firstPositions code = (candidates code).filter fun i =>
      (candidates code).find? (fun j =>
        Text.joinLines (stepsAt code j) = Text.joinLines (stepsAt code i)) = some i ∧
      2 ≤ (positionsOf code (stepsAt code i)).length := by
  have hpositions : firstPositions code = (candidates code).filter fun i =>
      (positionsOf code (stepsAt code i)).head? = some i ∧
        2 ≤ (positionsOf code (stepsAt code i)).length := by
    rw [candidates, List.filter_filter, firstPositions]
    refine List.filter_congr fun i _ => ?_
    rw [Bool.eq_iff_iff, Bool.and_eq_true, decide_eq_true_iff, decide_eq_true_iff,
      decide_eq_true_iff, and_comm]
  rw [hpositions]
  refine List.filter_congr fun i hi => ?_
  rw [← filter_candidates hcode hi, List.head?_filter]

/-- Each text is entered where it stands first, with the lines of all its positions. -/
theorem occurrences_eq (content : Text) : occurrences content =
    ((candidates (codeLines content)).filter fun i =>
      (candidates (codeLines content)).find? (fun j =>
        Text.joinLines (stepsAt (codeLines content) j) =
          Text.joinLines (stepsAt (codeLines content) i)) = some i).map fun i =>
      (Text.joinLines (stepsAt (codeLines content) i),
        (positionsOf (codeLines content) (stepsAt (codeLines content) i)).map
          (lineAt (codeLines content))) := by
  have hcode := (isCode_codeLines content).newline_not_mem
  rw [occurrences, filter_windows, List.foldl_map]
  generalize codeLines content = code at hcode ⊢
  have hnodup : (candidates code).Nodup := List.nodup_range.filter _
  refine (Table.foldl_modify_append (fun i => Text.joinLines (stepsAt code i))
    (fun i => (((code.drop i).take 3).head?.map (·.1)).toList) (candidates code)).trans ?_
  rw [eraseDups_map_eq _ hnodup, List.map_map]
  refine List.map_congr_left fun i hi => congrArg (Prod.mk _) ?_
  rw [filter_candidates hcode (List.mem_filter.mp hi).1, List.map_eq_flatMap]
  refine List.flatMap_congr fun j hj => head?_window (List.mem_range.mp ?_)
  exact (List.mem_filter.mp hj).1

/-- The steps that are repeated are entered under their text with the lines on which they stand. -/
theorem repeated_eq (content : Text) : repeated content = (firstPositions (codeLines content)).map
    fun i => (Text.joinLines (stepsAt (codeLines content) i),
      (positionsOf (codeLines content) (stepsAt (codeLines content) i)).map
        (lineAt (codeLines content))) := by
  rw [repeated, occurrences_eq, firstPositions_eq (isCode_codeLines content).newline_not_mem,
    List.filter_map, List.filter_filter]
  refine congrArg (List.map _) (List.filter_congr fun i _ => ?_)
  rw [Bool.eq_iff_iff, Bool.and_eq_true, Function.comp_apply, List.length_map, decide_eq_true_iff,
    decide_eq_true_iff, decide_eq_true_iff, and_comm]

theorem keys_repeated (content : Text) :
    (repeated content).keys = (repetitions (codeLines content)).map (·.text) := by
  rw [repeated_eq, repetitions, Table.keys, List.map_map, List.map_map]
  rfl

theorem nodup_keys_repeated (content : Text) : (repeated content).keys.Nodup := by
  have hkeys : (occurrences content).keys =
      (((windows (codeLines content)).filter isCandidate).map snippetOf).eraseDups := by
    rw [occurrences, Table.foldl_modify_append snippetOf, Table.keys, List.map_map]
    exact List.map_id _
  have hsub : (repeated content).keys.Sublist (occurrences content).keys :=
    List.filter_sublist.map _
  rw [hkeys] at hsub
  exact hsub.nodup (nodup_eraseDups _)

/-- No text is repeated among the repetitions. -/
theorem nodup_repetitions (content : Text) :
    ((repetitions (codeLines content)).map (·.text)).Nodup :=
  keys_repeated content ▸ nodup_keys_repeated content

/-! ### Changes -/

/-- The change that makes a helper of repeated steps. -/
def Repetition.change (r : Repetition) (name : Text) : Change where
  kind := .extractMethod
  line := r.line
  description := "Extract repeated steps into " ++ name ++ " (" ++ Text.ofNat r.count ++
    " occurrences)"
  before := r.text
  after := "await " ++ name ++ "(page);"

/-- The changes make a helper of each repetition, in order, under the name that the context has for
it. -/
def Proposes (repetitions : List Repetition) (context : Context) (changes : List Change) : Prop :=
  ∃ name : Text → Text, changes = repetitions.map (fun r => r.change (name r.text)) ∧
    ∀ r ∈ repetitions, context.methods.get? r.text = some (name r.text)

theorem grows_foldl_add : ∀ (entries : Table Text (List Nat)) (context : Context)
    (taken : List Text) (changes : List Change), context.Grows (entries.foldl add (context, taken, changes)).1
  | [], context, _, _ => .refl context
  | entry :: entries, context, taken, changes => by
      rw [List.foldl_cons]
      obtain ⟨name, -, e⟩ | ⟨name, -, -, e⟩ := add_cases context taken changes entry
      · rw [e]
        exact grows_foldl_add entries _ _ _
      · rw [e]
        refine Context.Grows.trans ?_ (grows_foldl_add entries _ _ _)
        exact ⟨List.prefix_refl _, List.prefix_refl _, List.prefix_append _ _⟩

/-- Each entry has its change, under the name that is found for it in the end. -/
theorem changes_foldl_add {name : Text → Text} : ∀ {entries : Table Text (List Nat)}
    {context : Context} {taken : List Text} {changes : List Change},
    (∀ text n, (entries.foldl add (context, taken, changes)).1.methods.get? text = some n →
      name text = n) →
    (entries.foldl add (context, taken, changes)).2.2 =
        changes ++ entries.map (fun entry => change entry.1 (name entry.1) entry.2) ∧
      ∀ entry ∈ entries, (entries.foldl add (context, taken, changes)).1.methods.get? entry.1 =
        some (name entry.1)
  | [], _, _, changes, _ => ⟨(List.append_nil changes).symm, by simp⟩
  | entry :: entries, context, taken, changes, hname => by
      have hone : ∃ n context' taken', context'.methods.get? entry.1 = some n ∧
          add (context, taken, changes) entry =
            (context', taken', changes ++ [change entry.1 n entry.2]) := by
        obtain ⟨n, hn, e⟩ | ⟨n, hnew, -, e⟩ := add_cases context taken changes entry
        · exact ⟨n, _, _, hn, e⟩
        · refine ⟨n, _, _, ?_, e⟩
          rw [← Table.set_of_has_eq_false hnew]
          exact Table.get?_set_self _ _ _
      obtain ⟨n, context', taken', hn, e⟩ := hone
      rw [List.foldl_cons, e] at hname ⊢
      obtain ⟨hchanges, hnames⟩ := changes_foldl_add hname
      have hlater := Table.get?_of_prefix
        (grows_foldl_add entries context' taken' (changes ++ [change entry.1 n entry.2])).methods hn
      have hentry := hname entry.1 n hlater
      refine ⟨?_, List.forall_mem_cons.mpr ⟨hentry ▸ hlater, hnames⟩⟩
      rw [hchanges, List.map_cons, hentry, List.append_assoc, List.singleton_append]

theorem proposes_extract (content : Text) (context : Context) :
    Proposes (repetitions (codeLines content)) (extract content context).1
      (extract content context).2 := by
  let name (text : Text) : Text := ((extract content context).1.methods.get? text).getD []
  have hname : ∀ text n,
      ((repeated content).foldl add (context, context.names, [])).1.methods.get? text = some n →
        name text = n :=
    fun text n h => congrArg (·.getD []) h
  obtain ⟨hchanges, hnames⟩ := changes_foldl_add hname
  rw [repeated_eq] at hchanges hnames
  refine ⟨name, ?_, ?_⟩
  · rw [extract, repeated_eq]
    refine hchanges.trans ?_
    rw [List.nil_append, repetitions, List.map_map, List.map_map]
    refine List.map_congr_left fun i hi => ?_
    obtain ⟨-, hfirst, -⟩ := of_decide_eq_true (List.mem_filter.mp hi).2
    obtain ⟨rest, hpositions⟩ := List.head?_eq_some_iff.mp hfirst
    simp only [Function.comp_apply, change, Repetition.change, hpositions, List.map_cons,
      List.headD_cons, List.length_cons, List.length_map]
  · refine List.forall_mem_map.mpr fun i hi => ?_
    rw [extract, repeated_eq]
    exact hnames _ (List.mem_map_of_mem hi)

/-- The changes that make helpers are the repetitions of three consecutive lines of code that open no
test and have as many opening as closing braces: one change for each, in the order in which they
first stand, with the line of the first and the number of all positions, whatever the context is. -/
theorem proposes_repetitions (content : Text) :
    IsCode content (codeLines content) ∧
    ((repetitions (codeLines content)).map (·.text)).Nodup ∧ ∀ context,
      Proposes (repetitions (codeLines content)) (extract content context).1
        (extract content context).2 ∧
      ∀ path p, Proposal.ofText content path context = .ok p →
        Proposes (repetitions (codeLines content)) p.context
          (p.changes.filter fun c => c.kind = .extractMethod) := by
  refine ⟨isCode_codeLines content, nodup_repetitions content,
    fun context => ⟨proposes_extract content context, ?_⟩⟩
  intro path p hp
  obtain ⟨e, he, -, hcontext, -⟩ := Proposal.parts_of_ofText hp
  rw [hcontext, (Proposal.filter_changes hp he).2]
  exact proposes_extract content e.context

/-- Four calls in a row, but for a comment and a blank line, so that the steps of the first three
stand at the second position, too. -/
def repeatedCall : Text := "save();\n// again\n\nsave();\n  save();\nsave();"

theorem proposes_repeatedCall :
    repetitions (codeLines repeatedCall) = [⟨"save();\nsave();\nsave();", 1, 2⟩] ∧
    ∃ p, Proposal.ofText repeatedCall "a.spec.ts" {} = .ok p ∧
      Proposes (repetitions (codeLines repeatedCall)) p.context
        (p.changes.filter fun c => c.kind = .extractMethod) := by
  have h : (Proposal.ofText repeatedCall "a.spec.ts" {}).toOption.any (fun _ => true) = true := by
    decide +kernel
  obtain ⟨p, hp, -⟩ := Extraction.exists_ok_of_any h
  exact ⟨by decide +kernel, p, hp, ((proposes_repetitions repeatedCall).2.2 {}).2 _ p hp⟩

end Methods
end SuiteAudit
