import SuiteAudit.Proofs.Refactoring.CasesKept
import SuiteAudit.Proofs.Source.Obscure

/-! # Every finding is explained

`Explains` goes through the lines of a text once and keeps four lists side by side: the lines, the
findings among them, the lines with their comments, and the changes.  Each finding has its change,
its comment stands where the change says and the line of the finding follows it; all other lines
stand as before (`explains_addFrom`).  What is to be known of the comments is read off that relation:
how many there are, where they stand (`Explains.getElem?`), and that without them the text is the
one before (`Explains.unlisted_eq`).  Together with the fact that nothing is added twice this is all
that adding comments does (`add_explains`). -/

namespace SuiteAudit
namespace Comments

/-- A comment is missing exactly where there is a finding. -/
theorem missingAt?_eq (all : List Text) (index : Nat) (line : Text) :
    missingAt? all index line =
      (commentFindingAt? all index line).map fun f => textFor (Text.trim line) f.kind := by
  unfold missingAt? commentFindingAt? generate?
  rw [Obscurity.ofLine?_trim]
  cases Obscurity.ofLine? line with
  | none => simp
  | some kind => cases hasNearbyComment all index commentWindow <;> rfl

/-- The comment for a line of a finding is the one that its kind asks for. -/
theorem exists_of_commentFindingAt? {all : List Text} {index : Nat} {line : Text}
    {f : CommentFinding} (h : commentFindingAt? all index line = some f) :
    ∃ comment, generate? (Text.trim line) = some comment ∧
      missingAt? all index line = some comment ∧ f = ⟨index + 1, f.kind, Text.trim line⟩ := by
  have hm := missingAt?_eq all index line
  rw [h] at hm
  obtain ⟨hkind, e⟩ := eq_of_commentFindingAt? h
  refine ⟨_, ?_, hm, e⟩
  rw [generate?, Obscurity.ofLine?_trim, hkind]
  rfl

/-- The findings among the lines of a text from an index on. -/
def findingsFrom (all : List Text) (index : Nat) (rest : List Text) : List CommentFinding :=
  (rest.zipIdx index).filterMap fun p => commentFindingAt? all p.2 p.1

theorem findingsFrom_cons (all : List Text) (index : Nat) (line : Text) (rest : List Text) :
    findingsFrom all index (line :: rest) =
      (commentFindingAt? all index line).toList ++ findingsFrom all (index + 1) rest := by
  unfold findingsFrom
  rw [List.zipIdx_cons, List.filterMap_cons]
  cases commentFindingAt? all index line <;> rfl

/-- Some lines from an index on with the findings among them, the same lines with a comment in front
of each line of a finding, and the changes for the comments, when `before` others stand before. -/
inductive Explains : Nat → Nat → List Text → List CommentFinding → List Text → List Change → Prop
  | nil (index before : Nat) : Explains index before [] [] [] []
  | keep {index before : Nat} {line : Text} {rest out : List Text}
      {findings : List CommentFinding} {changes : List Change} :
      Explains (index + 1) before rest findings out changes →
      Explains index before (line :: rest) findings (line :: out) changes
  | comment {index before : Nat} {line comment : Text} {kind : Obscurity} {rest out : List Text}
      {findings : List CommentFinding} {changes : List Change} :
      generate? (Text.trim line) = some comment →
      Explains (index + 1) (before + 1) rest findings out changes →
      Explains index before (line :: rest) (⟨index + 1, kind, Text.trim line⟩ :: findings)
        ((indentation line ++ "// " ++ comment) :: line :: out)
        (change comment line (index + before + 1) :: changes)

/-- The comments that are added explain the findings. -/
theorem explains_addFrom (all : List Text) : ∀ (index before : Nat) (rest : List Text),
    Explains index before rest (findingsFrom all index rest)
      (addFrom all index (index + before) rest).1 (addFrom all index (index + before) rest).2
  | index, before, [] => .nil index before
  | index, before, line :: rest => by
      rw [findingsFrom_cons, addFrom]
      cases hf : commentFindingAt? all index line with
      | none =>
          have hm : missingAt? all index line = none := by rw [missingAt?_eq, hf]; rfl
          have ih := explains_addFrom all (index + 1) before rest
          rw [Nat.add_right_comm] at ih
          simp only [hm]
          exact .keep ih
      | some f =>
          obtain ⟨comment, hg, hm, e⟩ := exists_of_commentFindingAt? hf
          have ih := explains_addFrom all (index + 1) (before + 1) rest
          rw [show index + 1 + (before + 1) = index + before + 2 by omega] at ih
          simp only [hm]
          rw [e]
          exact .comment hg ih

/-- The lines whose numbers are not listed, when the first has the number `n`. -/
def unlisted (numbers : List Int) : Nat → List Text → List Text
  | _, [] => []
  | n, line :: rest =>
    if (n : Int) ∈ numbers then unlisted numbers (n + 1) rest
    else line :: unlisted numbers (n + 1) rest

namespace Explains

variable {index before : Nat} {rest out : List Text} {findings : List CommentFinding}
  {changes : List Change}

theorem length_eq (h : Explains index before rest findings out changes) :
    changes.length = findings.length := by
  induction h with
  | nil => rfl
  | keep _ ih => exact ih
  | comment _ _ ih => rw [List.length_cons, List.length_cons, ih]

theorem length_out (h : Explains index before rest findings out changes) :
    out.length = rest.length + changes.length := by
  induction h with
  | nil => rfl
  | keep _ ih =>
      simp only [List.length_cons]
      omega
  | comment _ _ ih =>
      simp only [List.length_cons]
      omega

/-- Where nothing is found all stays as it is. -/
theorem eq_rest (h : Explains index before rest findings out changes) (hf : findings = []) :
    out = rest ∧ changes = [] := by
  induction h with
  | nil => exact ⟨rfl, rfl⟩
  | keep _ ih =>
      obtain ⟨hout, hchanges⟩ := ih hf
      exact ⟨by rw [hout], hchanges⟩
  | comment => cases hf

/-- The change for a finding and the comment that stands before its line. -/
theorem getElem? (h : Explains index before rest findings out changes) :
    ∀ {k : Nat} {f : CommentFinding}, findings[k]? = some f → ∃ i line comment,
      f.line = index + i + 1 ∧ rest[i]? = some line ∧ f.text = Text.trim line ∧
      generate? (Text.trim line) = some comment ∧
      changes[k]? = some (change comment line (f.line + before + k)) ∧
      out[i + k]? = some (indentation line ++ "// " ++ comment) ∧ out[i + k + 1]? = some line := by
  induction h with
  | nil => exact fun hf => by cases hf
  | keep _ ih =>
      intro k f hf
      obtain ⟨i, line, comment, hl, hi, ht, hg, hc, ho, ho'⟩ := ih hf
      refine ⟨i + 1, line, comment, by omega, hi, ht, hg, hc, ?_, ?_⟩
      · rw [Nat.add_right_comm]
        exact ho
      · rw [Nat.add_right_comm i]
        exact ho'
  | @comment index before line comment kind rest out findings changes hg _ ih =>
      intro k f hf
      cases k with
      | zero =>
          obtain rfl := Option.some.inj hf
          refine ⟨0, line, comment, rfl, rfl, rfl, hg, ?_, rfl, rfl⟩
          rw [Nat.add_right_comm]
          rfl
      | succ k =>
          obtain ⟨i, line', comment', hl, hi, ht, hg', hc, ho, ho'⟩ := ih hf
          refine ⟨i + 1, line', comment', by omega, hi, ht, hg', ?_, ?_, ?_⟩
          · rw [← Nat.add_assoc, Nat.add_right_comm _ k, Nat.add_assoc f.line]
            exact hc
          · rw [show i + 1 + (k + 1) = i + k + 2 by omega]
            exact ho
          · rw [show i + 1 + (k + 1) + 1 = i + k + 1 + 2 by omega]
            exact ho'

theorem kind_eq (h : Explains index before rest findings out changes) :
    ∀ c ∈ changes, c.kind = .addComment := by
  induction h with
  | nil => exact fun c hc => by cases hc
  | keep _ ih => exact ih
  | comment _ _ ih =>
      intro c hc
      rcases List.mem_cons.mp hc with rfl | hc
      · rfl
      · exact ih c hc

theorem lt_line (h : Explains index before rest findings out changes) :
    ∀ c ∈ changes, ((index + before : Nat) : Int) < c.line := by
  induction h with
  | nil => exact fun c hc => by cases hc
  | keep _ ih =>
      intro c hc
      have := ih c hc
      omega
  | comment _ _ ih =>
      intro c hc
      rcases List.mem_cons.mp hc with rfl | hc
      · simp only [change]
        omega
      · have := ih c hc
        omega

/-- The line that comes first is none of the changes and none of those before. -/
theorem not_mem_lines (h : Explains index before rest findings out changes) {earlier : List Int}
    (hlt : ∀ n ∈ earlier, n < ((index + before : Nat) : Int)) :
    ((index + before : Nat) : Int) ∉ earlier ++ changes.map Change.line := by
  intro hm
  rcases List.mem_append.mp hm with hm | hm
  · exact absurd (hlt _ hm) (Int.lt_irrefl _)
  · obtain ⟨c, hc, e⟩ := List.mem_map.mp hm
    exact absurd e (Int.ne_of_gt (h.lt_line c hc))

/-- Without the lines that the changes name, and perhaps some that come before, the lines are the
ones before. -/
theorem unlisted_eq (h : Explains index before rest findings out changes) :
    ∀ earlier : List Int, (∀ n ∈ earlier, n ≤ ((index + before : Nat) : Int)) →
      unlisted (earlier ++ changes.map Change.line) (index + before + 1) out = rest := by
  induction h with
  | nil => exact fun _ _ => rfl
  | @keep index before line rest out findings changes h ih =>
      intro earlier hle
      have hlt : ∀ n ∈ earlier, n < ((index + 1 + before : Nat) : Int) := by
        intro n hn
        have := hle n hn
        omega
      have hline := h.not_mem_lines hlt
      have hrest := ih earlier fun n hn => Int.le_of_lt (hlt n hn)
      rw [Nat.add_right_comm index] at hline hrest
      rw [unlisted, if_neg hline, hrest]
  | @comment index before line comment kind rest out findings changes hg h ih =>
      intro earlier hle
      -- what is left of the rest is found with the new line among the earlier ones
      let number : Int := ((index + before + 1 : Nat) : Int)
      have hlt : ∀ n ∈ earlier ++ [number], n < ((index + 1 + (before + 1) : Nat) : Int) := by
        refine List.forall_mem_append.mpr ⟨fun n hn => ?_, List.forall_mem_singleton.mpr ?_⟩
        · have := hle n hn
          omega
        · simp only [number]
          omega
      have hline := h.not_mem_lines hlt
      have hrest := ih (earlier ++ [number]) fun n hn => Int.le_of_lt (hlt n hn)
      rw [show index + 1 + (before + 1) = index + before + 1 + 1 by omega, List.append_assoc,
        List.singleton_append] at hline hrest
      have hnew : number ∈ earlier ++ (number :: changes.map Change.line) :=
        List.mem_append_right _ List.mem_cons_self
      have hnumber : (change comment line (index + before + 1)).line = number := rfl
      rw [List.map_cons, hnumber, unlisted, if_pos hnew, unlisted, if_neg hline, hrest]

end Explains

/-! ### A whole text -/

theorem explains_add (t : Text) : Explains 0 0 (Text.lines t) (commentFindings t)
    (Text.lines (add t).1) (add t).2 := by
  have h := explains_addFrom (Text.lines t) 0 0 (Text.lines t)
  rw [lines_add]
  exact h

/-- A text without the lines of some numbers, counted from one. -/
def withoutLines (numbers : List Int) (t : Text) : Text :=
  Text.joinLines (unlisted numbers 1 (Text.lines t))

/-- Without its comments a text is the one before. -/
theorem withoutLines_add (t : Text) : withoutLines ((add t).2.map Change.line) (add t).1 = t := by
  have h := (explains_add t).unlisted_eq [] fun n hn => by cases hn
  rw [List.nil_append] at h
  rw [withoutLines, h, Text.joinLines_lines]

/-- A text to which no lines are added has no findings. -/
theorem commentFindings_eq_nil {t : Text} (h : (add t).1 = t) : commentFindings t = [] := by
  have hx := explains_add t
  have hlen := hx.length_out
  rw [h] at hlen
  have hchanges : (add t).2.length = 0 := by omega
  exact List.eq_nil_of_length_eq_zero (hx.length_eq.symm.trans hchanges)

theorem add_of_commentFindings_eq_nil {t : Text} (h : commentFindings t = []) :
    add t = (t, []) := by
  obtain ⟨hlines, hchanges⟩ := (explains_add t).eq_rest h
  refine Prod.ext ?_ hchanges
  have := congrArg Text.joinLines hlines
  rwa [Text.joinLines_lines, Text.joinLines_lines] at this

theorem names_casesOf_add (t : Text) :
    (casesOf (add t).1).map Block.name = (casesOf t).map Block.name := by
  have h := commented_addFrom (Text.lines t) 0 0 (Text.lines t) fun _ hl =>
    Text.newline_not_mem_of_mem_lines t hl
  have hpadded : Opening.Padded (Text.lines t) ([] ++ _) := h.padded [] .refl
  rw [names_casesOf, names_casesOf, lines_add]
  exact hpadded.namesFrom_eq

/-- The comment for a long wait names the time of that wait. -/
theorem generate?_of_longWait {line : Text} (h : Obscurity.ofLine? line = some .longWait) :
    ∃ hit, Literal.timeoutCall.find? line = some hit ∧
      generate? line = some ("Wait " ++ hit.group 1 ++ "ms for the operation to settle") := by
  obtain ⟨hit, hf⟩ := Obscurity.exists_wait h
  refine ⟨hit, hf, ?_⟩
  have e : generate? line = some (textFor line .longWait) := by rw [generate?, h, Option.map_some]
  rw [e]
  unfold textFor
  rw [hf]
  simp only [Option.map_some, Option.getD_some]

/-- Adding comments settles every finding of a text and changes nothing else.  The time that the
comment for a long wait names can always be read.  Without the new lines the text is the one before.
There is a change for each finding in order: it stands as many lines below as there are comments
before it, names the line of the finding, and the new text has the comment there.  The new text has
no findings, and a second pass adds nothing; this is so of every proposed text.  The test cases keep
their names. -/
theorem add_explains (t : Text) :
    (∀ line, Obscurity.ofLine? line = some .longWait → ∃ hit,
      Literal.timeoutCall.find? line = some hit ∧
      generate? line = some ("Wait " ++ hit.group 1 ++ "ms for the operation to settle")) ∧
    withoutLines ((add t).2.map Change.line) (add t).1 = t ∧
    (add t).2.length = (commentFindings t).length ∧
    (∀ (k : Nat) (f : CommentFinding), (commentFindings t)[k]? = some f → ∃ i line comment,
      f.line = i + 1 ∧ (Text.lines t)[i]? = some line ∧ f.text = Text.trim line ∧
      generate? (Text.trim line) = some comment ∧
      (add t).2[k]? = some (change comment line (f.line + k)) ∧
      (Text.lines (add t).1)[i + k]? = some (indentation line ++ "// " ++ comment)) ∧
    commentFindings (add t).1 = [] ∧ add (add t).1 = ((add t).1, []) ∧
    (∀ content path context p, Proposal.ofText content path context = .ok p →
      commentFindings p.after = [] ∧ add p.after = (p.after, [])) ∧
    (casesOf (add t).1).map Block.name = (casesOf t).map Block.name := by
  have hsettled : ∀ u : Text, commentFindings (add u).1 = [] :=
    fun u => commentFindings_eq_nil (add_add u)
  refine ⟨fun line h => generate?_of_longWait h, withoutLines_add t, (explains_add t).length_eq,
    fun k f hf => ?_, hsettled t, add_of_commentFindings_eq_nil (hsettled t), ?_,
    names_casesOf_add t⟩
  · obtain ⟨i, line, comment, hl, hi, ht, hg, hc, ho, -⟩ := (explains_add t).getElem? hf
    exact ⟨i, line, comment, by omega, hi, ht, hg, hc, ho⟩
  · intro content path context p hp
    obtain ⟨e, -, hafter⟩ := Proposal.after_of_ofText hp
    rw [hafter]
    exact ⟨hsettled _, add_of_commentFindings_eq_nil (hsettled _)⟩

/-- Two long waits that no comment explains. -/
def unexplained : Text := "await page.waitForTimeout(5000);\n\n\n  await page.waitForTimeout(30000);"

/-- The second wait stands on line 4 and its comment on line 5, behind the comment for the first. -/
theorem second_wait_is_explained : (commentFindings unexplained)[1]? =
      some ⟨4, .longWait, "await page.waitForTimeout(30000);"⟩ ∧
    (∃ line comment, (Text.lines unexplained)[3]? = some line ∧
      generate? (Text.trim line) = some comment ∧
      (add unexplained).2[1]? = some (change comment line 5) ∧
      (Text.lines (add unexplained).1)[4]? = some (indentation line ++ "// " ++ comment)) ∧
    commentFindings (add unexplained).1 = [] := by
  have hf : (commentFindings unexplained)[1]? =
      some ⟨4, .longWait, "await page.waitForTimeout(30000);"⟩ := by
    decide +kernel
  obtain ⟨-, -, -, hall, hsettled, -⟩ := add_explains unexplained
  obtain ⟨i, line, comment, hi, hl, -, hg, hc, ho⟩ := hall 1 _ hf
  obtain rfl : i = 3 := Nat.succ.inj hi.symm
  exact ⟨hf, ⟨line, comment, hl, hg, hc, ho⟩, hsettled⟩

end Comments
end SuiteAudit
