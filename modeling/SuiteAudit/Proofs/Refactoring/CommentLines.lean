import SuiteAudit.Proofs.Pattern.Scan
import SuiteAudit.Proofs.Text.Lines
import SuiteAudit.Refactoring.Comments

/-! # Lines with comments in front of them

`Commented` relates some lines to the same lines with a comment in front of each that lacks one.
That is what `Comments.addFrom` makes of them (`commented_addFrom`).  A comment is a line of its own
that asks for no comment (`IsCommentLine`), and it counts as near to the line that follows it; so a
text with its comments lacks none (`add_add`). -/

namespace SuiteAudit
namespace Comments

/-! ### The text of a comment -/

/-- The characters of the fixed parts of comments. -/
def fixedChars : Text := " ERSWabcdefghilmnoprstuwxy"

theorem digits_group {p : Pattern} {q r : Pattern} {line : Text} {h : Hit}
    (hp : p = .chain [q, .blanks, .group 1 .digits, .blanks, r])
    (hq : ∀ place g s g', q.Takes place g s g' → g' = g)
    (hr : ∀ place g s g', r.Takes place g s g' → g' = g) (hf : p.find? line = some h) :
    ∀ c ∈ h.group 1, Text.isDigit c = true := by
  obtain ⟨a, t, -, hm⟩ := Pattern.exists_of_find? hf
  obtain ⟨s, groups, ht, rfl⟩ := Pattern.matchAt_sound hm
  subst hp
  obtain ⟨s₁, s₂, g₁, h₁, h, rfl⟩ := ht
  obtain rfl := hq _ _ _ _ h₁
  obtain ⟨b₁, s₃, g₂, ⟨-, -, -, rfl⟩, h, rfl⟩ := h
  obtain ⟨d, s₄, g₃, ⟨g₄, ⟨hd, hdigits, -, rfl⟩, rfl⟩, h, rfl⟩ := h
  obtain ⟨b₂, s₅, g₅, ⟨-, -, -, rfl⟩, h₅, rfl⟩ := h
  obtain rfl := hr _ _ _ _ h₅
  rw [List.prefix_iff_eq_take] at hd
  intro c hc
  refine hdigits c ?_
  rw [hd]
  simpa [Pattern.hitOf, Hit.group, Hit.group?, Stretch.text] using hc

/-- A fixed text has no groups. -/
theorem lit_groups (t : Text) : ∀ place g s g', (Pattern.lit t).Takes place g s g' → g' = g :=
  fun _ _ _ _ h => h.2.2

theorem forall_of_fixed {t : Text} (ht : t.all fixedChars.elem = true) :
    ∀ c ∈ t, c ∈ fixedChars ∨ Text.isDigit c = true :=
  fun c hc => .inl (List.elem_iff.mp (List.all_eq_true.mp ht c hc))

/-- The number of a line, or the words that stand for one. -/
theorem forall_of_group {q r : Pattern} (p : Pattern) (line words : Text)
    (hp : p = .chain [q, .blanks, .group 1 .digits, .blanks, r])
    (hq : ∀ place g s g', q.Takes place g s g' → g' = g)
    (hr : ∀ place g s g', r.Takes place g s g' → g' = g) (hwords : words.all fixedChars.elem = true) :
    ∀ c ∈ ((p.find? line).map (·.group 1)).getD words,
      c ∈ fixedChars ∨ Text.isDigit c = true := by
  cases hf : p.find? line with
  | none => exact forall_of_fixed hwords
  | some h => exact fun c hc => .inr (digits_group hp hq hr hf c hc)

/-- A comment holds the characters of its fixed parts and digits. -/
theorem forall_textFor (line : Text) (o : Obscurity) :
    ∀ c ∈ textFor line o, c ∈ fixedChars ∨ Text.isDigit c = true := by
  cases o with
  | longWait =>
      have hms := forall_of_group Literal.timeoutCall line [] rfl (lit_groups _) (lit_groups _) rfl
      exact List.forall_mem_append.mpr ⟨List.forall_mem_append.mpr
        ⟨forall_of_fixed (by decide +kernel), hms⟩, forall_of_fixed (by decide +kernel)⟩
  | bulkCount =>
      have hcount := forall_of_group countCall line "the expected number of" rfl (lit_groups _)
        (lit_groups _) (by decide +kernel)
      exact List.forall_mem_append.mpr ⟨List.forall_mem_append.mpr
        ⟨forall_of_fixed (by decide +kernel), hcount⟩, forall_of_fixed (by decide +kernel)⟩
  | pageEvaluate => exact forall_of_fixed (t := "Run script in the page context") (by decide +kernel)
  | concurrent =>
      exact forall_of_fixed (t := "Run these async operations concurrently") (by decide +kernel)
  | selectorTimeout =>
      exact forall_of_fixed (t := "Wait for the element with an explicit timeout") (by decide +kernel)
  | positionalLocator =>
      exact forall_of_fixed (t := "Select the element by position in the list") (by decide +kernel)

/-- A line with a comment and nothing else: blanks, two slashes and a text of few characters. -/
def IsCommentLine (line : Text) : Prop :=
  ∃ indent text, (∀ c ∈ indent, Text.isBlank c = true ∧ c ≠ '\n') ∧
    (∀ c ∈ text, c ∈ fixedChars ∨ Text.isDigit c = true) ∧
    line = indent ++ '/' :: ('/' :: ' ' :: text)

theorem IsCommentLine.not_mem {line : Text} (h : IsCommentLine line) {c : Char}
    (hf : c ∉ fixedChars) (hd : Text.isDigit c = false) (hs : c ≠ '/')
    (hb : Text.isBlank c = true → c = '\n') : c ∉ line := by
  obtain ⟨indent, text, hi, ht, rfl⟩ := h
  simp only [List.mem_append, List.mem_cons, not_or]
  refine ⟨fun hm => (hi c hm).2 (hb (hi c hm).1), hs, hs, ?_, fun hm => ?_⟩
  · rintro rfl
    exact hf (by decide)
  · rcases ht c hm with h | h
    · exact hf h
    · rw [hd] at h; cases h

theorem isCommentLine_comment {line : Text} (hl : '\n' ∉ line) (source : Text) (o : Obscurity) :
    IsCommentLine (indentation line ++ "// " ++ textFor source o) := by
  refine ⟨indentation line, textFor source o, fun c hc => ⟨?_, ?_⟩, forall_textFor source o, ?_⟩
  · exact List.all_eq_true.mp List.all_takeWhile c hc
  · rintro rfl
    exact hl ((List.takeWhile_sublist _).subset hc)
  · rw [List.append_assoc]
    rfl

/-! ### A comment asks for none -/

theorem trimEnd_append_cons {a t : Text} {c : Char} (hc : Text.isBlank c = false) :
    Text.trimEnd (a ++ c :: t) = a ++ c :: Text.trimEnd t := by
  have e : (a ++ c :: t).reverse = t.reverse ++ (c :: a.reverse) := by simp
  rw [Text.trimEnd, Text.trimEndWhile, e, List.dropWhile_append]
  cases hd : t.reverse.dropWhile Text.isBlank with
  | nil => simp [hc, Text.trimEnd, Text.trimEndWhile, hd]
  | cons x u => simp [Text.trimEnd, Text.trimEndWhile, hd]

/-- A comment without the blanks around it begins with its slashes. -/
theorem IsCommentLine.trim {line : Text} (h : IsCommentLine line) :
    ∃ text, Text.trim line = '/' :: '/' :: text := by
  obtain ⟨indent, text, hi, -, rfl⟩ := h
  have hs : Text.isBlank '/' = false := by decide
  refine ⟨Text.trimEnd (' ' :: text), ?_⟩
  rw [Text.trim, Text.trimStart, List.dropWhile_append_of_pos fun c hc => (hi c hc).1,
    List.dropWhile_cons_of_neg (by simp [hs])]
  exact trimEnd_append_cons (a := ['/']) hs

theorem IsCommentLine.isCommentMarker {line : Text} (h : IsCommentLine line) :
    isCommentMarker line = true := by
  obtain ⟨text, e⟩ := h.trim
  simp only [SuiteAudit.isCommentMarker, e]
  rfl

theorem mem_of_mem_trim {line : Text} {c : Char} (h : c ∈ Text.trim line) : c ∈ line := by
  rw [Text.trim, Text.trimEnd, Text.trimEndWhile, List.mem_reverse] at h
  have := (List.dropWhile_sublist _).subset h
  exact (List.dropWhile_sublist _).subset (List.mem_reverse.mp this)

/-- Each kind of line that should be explained holds an opening parenthesis. -/
theorem paren_mem_of_ofLine? {line : Text} {o : Obscurity} (h : Obscurity.ofLine? line = some o) :
    '(' ∈ line := by
  have hlit : ∀ {s : Text} {place g s' g'}, '(' ∈ s → (Pattern.lit s).Takes place g s' g' → '(' ∈ s' :=
    fun hs ht => ht.2.1 ▸ hs
  unfold Obscurity.ofLine? at h
  have ho := List.find?_some h
  obtain ⟨a, s, r, groups, rfl, ht⟩ := Pattern.exists_takes_of_occursIn ho
  refine List.mem_append_right a (List.mem_append_left r ?_)
  cases o with
  | pageEvaluate => exact hlit (by decide) ht
  | concurrent => exact hlit (by decide) ht
  | longWait | bulkCount | selectorTimeout | positionalLocator =>
      obtain ⟨s₁, s₂, g₁, h₁, -, rfl⟩ := ht
      exact List.mem_append_left s₂ (hlit (by decide) h₁)

theorem IsCommentLine.generate?_eq_none {line : Text} (h : IsCommentLine line) :
    generate? (Text.trim line) = none := by
  have hp : '(' ∉ line := h.not_mem (by decide) (by decide) (by decide) (by decide)
  rw [generate?, Option.map_eq_none_iff]
  cases ho : Obscurity.ofLine? (Text.trim line) with
  | none => rfl
  | some o => exact absurd (mem_of_mem_trim (paren_mem_of_ofLine? ho)) hp

/-! ### Lines with their comments -/

/-- Some lines of a text, from an index on, and the same lines with a comment in front of each that
lacks one. -/
inductive Commented (all : List Text) : Nat → List Text → List Text → Prop
  | nil (index : Nat) : Commented all index [] []
  | keep {index : Nat} {line : Text} {rest out : List Text} :
      missingAt? all index line = none → Commented all (index + 1) rest out →
      Commented all index (line :: rest) (line :: out)
  | comment {index : Nat} {line new : Text} {rest out : List Text} :
      IsCommentLine new → Commented all (index + 1) rest out →
      Commented all index (line :: rest) (new :: line :: out)

theorem commented_addFrom (all : List Text) : ∀ (index written : Nat) (rest : List Text),
    (∀ line ∈ rest, '\n' ∉ line) → Commented all index rest (addFrom all index written rest).1
  | index, written, [], _ => .nil index
  | index, written, line :: rest, h => by
      have hrest : ∀ l ∈ rest, '\n' ∉ l := fun l hl => h l (List.mem_cons_of_mem line hl)
      rw [addFrom]
      split
      · next hm => exact .keep hm (commented_addFrom all _ _ rest hrest)
      · next comment hm =>
        refine .comment ?_ (commented_addFrom all _ _ rest hrest)
        unfold missingAt? at hm
        split at hm
        · cases hm
        · obtain ⟨o, -, rfl⟩ := Option.map_eq_some_iff.mp hm
          exact isCommentLine_comment (h line List.mem_cons_self) _ o

/-- The lines of a text with its comments. -/
theorem exists_commented (content : Text) :
    ∃ out, (add content).1 = Text.joinLines out ∧
      Commented (Text.lines content) 0 (Text.lines content) out :=
  ⟨_, rfl, commented_addFrom _ 0 0 _ fun _ hl => Text.newline_not_mem_of_mem_lines content hl⟩

namespace Commented

variable {all rest out : List Text} {index : Nat}

theorem ne_nil (h : Commented all index rest out) (hr : rest ≠ []) : out ≠ [] := by
  cases h with
  | nil => exact absurd rfl hr
  | keep => exact List.cons_ne_nil _ _
  | comment => exact List.cons_ne_nil _ _

/-- Each line is a comment or one of the lines before. -/
theorem mem (h : Commented all index rest out) {line : Text} (hl : line ∈ out) :
    IsCommentLine line ∨ line ∈ rest := by
  induction h with
  | nil => cases hl
  | keep _ _ ih =>
      rcases List.mem_cons.mp hl with rfl | hl
      · exact Or.inr List.mem_cons_self
      · exact (ih hl).imp_right (List.mem_cons_of_mem _)
  | comment hc _ ih =>
      rcases List.mem_cons.mp hl with rfl | hl
      · exact Or.inl hc
      rcases List.mem_cons.mp hl with rfl | hl
      · exact Or.inr List.mem_cons_self
      · exact (ih hl).imp_right (List.mem_cons_of_mem _)

/-- No line is lost. -/
theorem sublist (h : Commented all index rest out) : rest.Sublist out := by
  induction h with
  | nil => exact List.Sublist.refl []
  | keep _ _ ih => exact ih.cons_cons _
  | comment _ _ ih => exact (ih.cons_cons _).cons _

theorem split : ∀ {a b out : List Text} {index : Nat}, Commented all index (a ++ b) out →
    ∃ oa ob, out = oa ++ ob ∧ Commented all index a oa ∧ Commented all (index + a.length) b ob
  | [], b, out, index, h => ⟨[], out, rfl, .nil index, h⟩
  | line :: a, b, _, index, h => by
      have hi : index + 1 + a.length = index + (line :: a).length := by
        rw [List.length_cons]
        omega
      cases h with
      | keep hm h =>
          obtain ⟨oa, ob, rfl, ha, hb⟩ := split h
          exact ⟨line :: oa, ob, rfl, .keep hm ha, hi ▸ hb⟩
      | comment hc h =>
          obtain ⟨oa, ob, rfl, ha, hb⟩ := split h
          exact ⟨_ :: line :: oa, ob, rfl, .comment hc ha, hi ▸ hb⟩

/-! ### Comments that are near -/

/-- A comment among the next two lines stays there, or one that is new stands before it. -/
theorem near_below (h : Commented all index rest out)
    (hn : (rest.take 2).any isCommentMarker = true) :
    (out.take 2).any isCommentMarker = true := by
  cases h with
  | nil => exact hn
  | comment hc _ => simp [hc.isCommentMarker]
  | keep _ h =>
      cases h with
      | nil => exact hn
      | keep _ _ => exact hn
      | comment hc _ => simp [hc.isCommentMarker]

/-- The last two of some lines. -/
def lastTwo (ls : List Text) : List Text := ls.drop (ls.length - 2)

theorem lastTwo_concat (ls : List Text) (x : Text) :
    lastTwo (ls ++ [x]) = ls.getLast?.toList ++ [x] := by
  unfold lastTwo
  rw [List.length_append, List.length_singleton,
    show ls.length + 1 - 2 = ls.length - 1 by omega, List.drop_append_of_le_length (by omega)]
  rcases List.eq_nil_or_concat ls with rfl | ⟨l, y, e⟩
  · rfl
  · rw [e, List.concat_eq_append]
    simp

theorem getLast?_eq (h : Commented all index rest out) : out.getLast? = rest.getLast? := by
  induction h with
  | nil => rfl
  | keep _ _ ih => rw [List.getLast?_cons, List.getLast?_cons, ih]
  | comment _ _ ih =>
      rw [List.getLast?_cons, List.getLast?_cons, List.getLast?_cons, ih]
      rfl

/-- The same for the last two lines before a place. -/
theorem near_above {done : List Text} (h : Commented all index done out)
    (hn : (lastTwo done).any isCommentMarker = true) :
    (lastTwo out).any isCommentMarker = true := by
  rcases List.eq_nil_or_concat done with rfl | ⟨d, x, e⟩
  · cases h
    exact hn
  · rw [List.concat_eq_append] at e
    subst e
    obtain ⟨od, o, rfl, hd, hx⟩ := h.split
    have hnil : ∀ {i : Nat} {o : List Text}, Commented all i [] o → o = [] :=
      fun h => by cases h; rfl
    cases hx with
    | keep _ hx =>
        obtain rfl := hnil hx
        rw [lastTwo_concat] at hn ⊢
        rw [hd.getLast?_eq]
        exact hn
    | comment hc hx =>
        obtain rfl := hnil hx
        rw [List.append_cons, lastTwo_concat]
        simp [hc.isCommentMarker]

theorem missingAt?_append (done : List Text) (line : Text) (rest : List Text) :
    missingAt? (done ++ line :: rest) done.length line =
      if hasTrailingComment line || ((rest.take 2).any isCommentMarker ||
        (lastTwo done).any isCommentMarker) then none else generate? (Text.trim line) := by
  simp [missingAt?, hasNearbyComment, markerNear, commentWindow, lastTwo]

theorem append : ∀ {a b oa ob : List Text} {index : Nat}, Commented all index a oa →
    Commented all (index + a.length) b ob → Commented all index (a ++ b) (oa ++ ob)
  | [], _, _, _, _, ha, hb => by
      cases ha
      exact hb
  | line :: a, b, _, ob, index, ha, hb => by
      rw [List.length_cons, Nat.add_comm a.length, ← Nat.add_assoc] at hb
      cases ha with
      | keep hm ha => exact .keep hm (append ha hb)
      | comment hc ha => exact .comment hc (append ha hb)

/-- A line that lacks no comment among the lines before lacks none among those with comments. -/
theorem missingAt?_eq_none {line : Text} {done odone : List Text}
    (hdone : Commented all 0 done odone) (h : Commented all index rest out)
    (hm : missingAt? (done ++ line :: rest) done.length line = none) :
    missingAt? (odone ++ line :: out) odone.length line = none := by
  rw [missingAt?_append] at hm ⊢
  split at hm
  · next hn =>
    rw [if_pos]
    simp only [Bool.or_eq_true] at hn ⊢
    exact hn.imp_right (Or.imp h.near_below hdone.near_above)
  · rw [hm, ite_self]

/-- Where all comments stand no line lacks one: nothing more is added. -/
theorem addFrom_eq_self : ∀ {rest out done odone : List Text},
    Commented (done ++ rest) 0 done odone →
    Commented (done ++ rest) done.length rest out → ∀ written,
      (addFrom (odone ++ out) odone.length written out).1 = out
  | [], out, done, odone, _, h, written => by
      cases h
      rfl
  | line :: rest, _, done, odone, hdone, h, written => by
      have e : ∀ (d : List Text) (x : Text) (r : List Text), d ++ x :: r = (d ++ [x]) ++ r :=
        List.append_cons
      have hlen : ∀ (d : List Text) (x : Text), d.length + 1 = (d ++ [x]).length := fun d x => by
        simp
      cases h with
      | keep hm h =>
          have hnone := missingAt?_eq_none hdone h hm
          have hdone' := hdone.append (b := [line]) (.keep (by rwa [Nat.zero_add]) (.nil _))
          rw [addFrom, hnone]
          simp only
          rw [e odone, hlen odone line]
          rw [e done] at hdone' h
          rw [hlen done line] at h
          rw [addFrom_eq_self hdone' h]
      | @comment _ _ new _ out hc h =>
          have hnew : missingAt? (odone ++ new :: line :: out) odone.length new = none := by
            rw [missingAt?_append, hc.generate?_eq_none, ite_self]
          have hnone : missingAt? ((odone ++ [new]) ++ line :: out) (odone ++ [new]).length line =
              none := by
            rw [missingAt?_append, if_pos]
            simp [lastTwo_concat, hc.isCommentMarker]
          have hdone' := hdone.append (b := [line]) (.comment hc (.nil _))
          rw [addFrom, hnew]
          simp only
          rw [e odone, hlen odone new, addFrom, hnone]
          simp only
          rw [e (odone ++ [new]), hlen (odone ++ [new]) line, List.append_assoc odone]
          rw [e done] at hdone' h
          rw [hlen done line] at h
          rw [List.singleton_append, addFrom_eq_self hdone' h]

end Commented

/-- The lines of a text with its comments. -/
theorem lines_add (content : Text) : Text.lines (add content).1 =
    (addFrom (Text.lines content) 0 0 (Text.lines content)).1 := by
  have h := commented_addFrom (Text.lines content) 0 0 _ fun _ hl =>
    Text.newline_not_mem_of_mem_lines content hl
  refine Text.lines_joinLines (h.ne_nil (Text.lines_ne_nil content)) fun line hl => ?_
  rcases h.mem hl with hc | hl
  · exact hc.not_mem (by decide) (by decide) (by decide) (by decide)
  · exact Text.newline_not_mem_of_mem_lines content hl

/-- A text with its comments lacks none. -/
theorem add_add (content : Text) : (add (add content).1).1 = (add content).1 := by
  have h := commented_addFrom (Text.lines content) 0 0 _ fun _ hl =>
    Text.newline_not_mem_of_mem_lines content hl
  have hstart : Commented ([] ++ Text.lines content) 0 [] [] := .nil 0
  have := hstart.addFrom_eq_self h 0
  rw [add, lines_add]
  exact congrArg Text.joinLines this

end Comments
end SuiteAudit
