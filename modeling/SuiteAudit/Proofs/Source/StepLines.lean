import SuiteAudit.Proofs.Source.StepCalls
import SuiteAudit.Proofs.Text.Lines

/-! # The steps of lines of calls

A line with one call gives the step of this call exactly when no argument looks like a call of a
method that is looked for earlier (`onLine?_call_iff`); a page opening is looked for with its quoted
argument, so it must end the first of two arguments to be taken for one
(`gotoCall_find?_eq_none`).  A line of any number of calls whose arguments look like none gives the
step of its first call of the first method (`onLine?_bland`).  Steps with the numbers of their lines
are compared line by line (`numbered_eq_iff`), which gives the steps of whole pages
(`stepsOf_calls`). -/

namespace SuiteAudit
namespace Step

open Opening

/-! ### Marks -/

/-- A text without quotation marks. -/
def IsUnmarked (t : Text) : Prop := ∀ x ∈ t, isTitleMark x = false

theorem IsUnmarked.append {s t : Text} (hs : IsUnmarked s) (ht : IsUnmarked t) :
    IsUnmarked (s ++ t) := fun x hx =>
  (List.mem_append.mp hx).elim (hs x) (ht x)

theorem isUnmarked_of_blank {t : Text} (ht : ∀ x ∈ t, Text.isBlank x = true) : IsUnmarked t := by
  intro x hx
  cases hm : isTitleMark x with
  | false => rfl
  | true =>
      have hb : Text.isBlank x = false := head?_titleMark hm []
      rw [ht x hx] at hb
      cases hb

theorem isUnmarked_callEnd : IsUnmarked callEnd := Text.forall_mem_of_all (by decide +kernel)

theorem isUnmarked_separator : IsUnmarked [',', ' '] := Text.forall_mem_of_all (by decide +kernel)

theorem isUnmarked_start (m : Method) : IsUnmarked (callStart ++ m.head) :=
  Text.forall_mem_of_all (by cases m <;> decide +kernel)

/-- The first mark of a text and what follows it. -/
theorem cases_of_mark {y z a w : Text} {q : Char} (hq : isTitleMark q = true) (ha : IsUnmarked a)
    (e : y ++ q :: z = a ++ '\'' :: w) :
    (y = a ∧ z = w) ∨ ∃ y', y = a ++ '\'' :: y' ∧ y' ++ q :: z = w := by
  have hqa : q ∉ a := fun hm => by
    rw [ha q hm] at hq
    cases hq
  obtain ⟨s, rfl, hs⟩ := Text.exists_of_append_eq hqa e.symm
  cases s with
  | nil => exact .inl ⟨List.append_nil a, (List.tail_eq_of_cons_eq hs).symm⟩
  | cons x s =>
      obtain ⟨rfl, rfl⟩ := List.cons.inj hs
      exact .inr ⟨s, rfl, rfl⟩

theorem not_isUnmarked {y z a : Text} {q : Char} (hq : isTitleMark q = true)
    (e : y ++ q :: z = a) : ¬ IsUnmarked a := fun ha => by
  have := ha q (by simp [← e])
  rw [hq] at this
  cases this

/-- A text with one mark does not hold two. -/
theorem ne_of_one_mark {y z u a b : Text} {q : Char} (hq : isTitleMark q = true)
    (ha : IsUnmarked a) (hb : IsUnmarked b) : y ++ q :: (z ++ q :: u) ≠ a ++ '\'' :: b := by
  intro e
  rcases cases_of_mark hq ha e with ⟨-, e⟩ | ⟨y', -, e⟩
  · exact not_isUnmarked hq e hb
  · exact not_isUnmarked hq e hb

/-! ### Lines with one call -/

/-- A text that ends with the opening of a page call. -/
def OpensGoto (t : Text) : Prop :=
  ∃ y ws, (∀ x ∈ ws, Text.isBlank x = true) ∧ t = y ++ (Method.goto.head ++ ws)

/-- No argument of the call looks like a call of an earlier method. -/
structure Call.IsClear (c : Call) : Prop where
  target : c.second?.isSome = true → ¬ OpensGoto c.target.text
  arguments : ∀ m ∈ c.method.earlier, m ≠ .goto → ∀ x ∈ c.arguments, ¬ m.head <:+: x

theorem mark_not_mem_opening {ws : Text} (hws : ∀ x ∈ ws, Text.isBlank x = true) :
    '\'' ∉ Method.goto.head ++ ws := by
  intro hm
  rcases List.mem_append.mp hm with hm | hm
  · exact Method.mark_not_mem_head _ hm
  · have := isUnmarked_of_blank hws _ hm
    rw [mark_isTitleMark] at this
    cases this

/-- A call line as its parts between the marks. -/
theorem call_line_eq (g last : Gap) (c : Call) : g.text ++ (callStart ++ (c.text ++ last.text)) =
    (g.text ++ (callStart ++ c.method.head)) ++
      '\'' :: (c.target.text ++ '\'' :: (c.closing ++ last.text)) := by
  rw [Call.text_append]
  simp

theorem gotoCall_find?_eq_none {g last : Gap} {c : Call} (hc : c.method ≠ .goto)
    (hclear : c.second?.isSome = true → ¬ OpensGoto c.target.text) :
    gotoCall.find? (g.text ++ (callStart ++ (c.text ++ last.text))) = none := by
  refine Option.eq_none_iff_forall_ne_some.mpr fun hit hfind => ?_
  obtain ⟨y, ws, q, s, r, hws, hq, e⟩ := exists_of_quotedCall_find? hfind
  have hlast : IsUnmarked (callEnd ++ last.text) :=
    isUnmarked_callEnd.append (isUnmarked_of_blank last.blank)
  have hstart : IsUnmarked (g.text ++ (callStart ++ c.method.head)) :=
    (isUnmarked_of_blank g.blank).append (isUnmarked_start c.method)
  have e : (y ++ (Method.goto.head ++ ws)) ++ q :: (s ++ q :: r) =
      (g.text ++ (callStart ++ c.method.head)) ++
        '\'' :: (c.target.text ++ '\'' :: (c.closing ++ last.text)) := by
    rw [← call_line_eq, e, quotedText_append, List.append_assoc, List.append_assoc]
    rfl
  rcases cases_of_mark hq hstart e with ⟨e₁, -⟩ | ⟨y₁, e₁, e⟩
  · -- no other method opens before the first argument
    have hfree : Method.goto.head <:+: g.text ++ (callStart ++ c.method.head) :=
      e₁ ▸ ⟨y, ws, List.append_assoc _ _ _⟩
    exact hc (Method.eq_of_head_infix (infix_of_point_not_mem point_not_mem_callStart
      (infix_of_point_not_mem (g.not_mem (by decide)) hfree)))
  cases hsecond : c.second? with
  | none =>
      rw [Call.closing, hsecond] at e
      exact ne_of_one_mark hq c.target.unmarked hlast e
  | some arg =>
      have hclosing : c.closing ++ last.text =
          [',', ' '] ++ '\'' :: (arg.text ++ '\'' :: (callEnd ++ last.text)) := by
        rw [closing_of_second? hsecond]
        simp
      rw [hclosing] at e
      have hmark := mark_not_mem_opening hws
      rcases cases_of_mark hq c.target.unmarked e with ⟨rfl, -⟩ | ⟨y₂, rfl, e₂⟩
      · -- the opening ends the first argument
        obtain ⟨u, -, hu⟩ := Text.exists_of_append_eq' hmark e₁
        exact hclear (by rw [hsecond]; rfl) ⟨u, ws, hws, hu⟩
      · rcases cases_of_mark hq isUnmarked_separator e₂ with ⟨rfl, -⟩ | ⟨y₃, -, e₃⟩
        · -- the opening stands between the arguments
          have e₂ : y ++ (Method.goto.head ++ ws) =
              g.text ++ (callStart ++ c.method.head) ++ '\'' :: c.target.text ++ '\'' :: [',', ' '] := by
            rw [e₁]
            simp
          obtain ⟨u, -, hu⟩ := Text.exists_of_append_eq' hmark e₂
          have hpoint : '.' ∈ ([',', ' '] : Text) := by
            rw [hu]
            simp [Method.point_mem_head]
          exact absurd hpoint (by decide)
        · exact ne_of_one_mark hq arg.unmarked hlast e₃

theorem gotoCall_find?_ne_none {g last : Gap} {c : Call} (hsecond : c.second?.isSome = true)
    (hopens : OpensGoto c.target.text) :
    gotoCall.find? (g.text ++ (callStart ++ (c.text ++ last.text))) ≠ none := by
  obtain ⟨arg, hsecond⟩ := Option.isSome_iff_exists.mp hsecond
  obtain ⟨y, ws, hws, htarget⟩ := hopens
  -- the mark behind the first argument opens a text that the one before the second closes
  have hline : g.text ++ (callStart ++ (c.text ++ last.text)) =
      (g.text ++ (callStart ++ c.method.head) ++ '\'' :: y) ++
        (quotedText "goto" ws '\'' [',', ' '] ++ (arg.text ++ '\'' :: (callEnd ++ last.text))) := by
    have hhead : callHead "goto" = Method.goto.head := rfl
    rw [call_line_eq, htarget, closing_of_second? hsecond, quotedText_append, hhead]
    simp only [List.append_assoc, List.cons_append, List.nil_append]
  rw [hline]
  exact find?_quotedCall_ne_none hws mark_isTitleMark (by decide) (by decide)

theorem head_infix_line {m : Method} {line : CallLine} (h : m.head <:+: line.text) :
    ∃ gc ∈ line.calls, gc.2.method = m ∨ ∃ a ∈ gc.2.arguments, m.head <:+: a :=
  (head_infix_calls h).resolve_right fun h =>
    line.last.not_mem (by decide) (h.subset m.point_mem_head)

theorem text_of_one (g last : Gap) (c : Call) : CallLine.text ⟨[(g, c)], last⟩ =
    g.text ++ (callStart ++ (c.text ++ last.text)) :=
  callsText_cons_append g c [] last.text

/-- The method of a call does not stand before it where the calls before it have other methods and
no argument looks like one. -/
theorem not_head_infix_before {m : Method} {calls : List (Gap × Call)} (g : Gap)
    (h : ∀ gc ∈ calls, gc.2.method ≠ m ∧ ∀ a ∈ gc.2.arguments, ¬ m.head <:+: a) :
    ¬ m.head <:+: callsText calls ++ (g.text ++ callStart) := by
  intro hm
  rcases head_infix_calls hm with ⟨gc, hgc, h' | ⟨a, ha, h'⟩⟩ | h'
  · exact (h gc hgc).1 h'
  · exact (h gc hgc).2 a ha h'
  · exact point_not_mem_callStart
      ((infix_of_point_not_mem (g.not_mem (by decide)) h').subset m.point_mem_head)

theorem Method.not_mem_earlier (m : Method) : m ∉ m.earlier := by
  cases m <;> decide

/-- A line with one call gives its step exactly when no argument looks like a call of an earlier
method. -/
theorem onLine?_call_iff {g last : Gap} {c : Call}
    (hvalue : ∀ value ∈ c.value?, ')' ∉ value.text) :
    onLine? (CallLine.text ⟨[(g, c)], last⟩) = some c.step ↔ c.IsClear := by
  have hline : CallLine.text ⟨[(g, c)], last⟩ = (g.text ++ callStart) ++ (c.text ++ last.text) :=
    (text_of_one g last c).trans (List.append_assoc _ _ _).symm
  constructor
  · intro h
    obtain ⟨hgoto, hquiet⟩ := quiet_of_onLine? (m := c.method) h rfl
    refine ⟨fun hsecond hopens => ?_, fun m hm hne x hx hmx => hquiet m hm hne ?_⟩
    · rw [text_of_one] at hgoto
      refine gotoCall_find?_ne_none hsecond hopens (hgoto fun hc => ?_)
      cases c <;> cases hsecond <;> cases hc
    · rw [hline]
      exact hmx.trans ((argument_infix_text hx _).trans (List.suffix_append _ _).isInfix)
  · intro hclear
    refine onLine?_eq_step hline (fun hc => ?_) (fun m hm hne h => ?_) ?_ hvalue
    · rw [text_of_one]
      exact gotoCall_find?_eq_none hc hclear.target
    · obtain ⟨gc, hgc, h⟩ := head_infix_line h
      obtain rfl := List.mem_singleton.mp hgc
      rcases h with rfl | ⟨a, ha, h⟩
      · exact Method.not_mem_earlier _ hm
      · exact hclear.arguments m hm hne a ha h
    · have hnone : ∀ gc ∈ ([] : List (Gap × Call)), gc.2.method ≠ c.method ∧
          ∀ a ∈ gc.2.arguments, ¬ c.method.head <:+: a := by simp
      exact not_head_infix_before g hnone

/-! ### Lines with any number of calls -/

/-- No argument on the line holds the opening of a method. -/
def CallLine.IsBland (line : CallLine) : Prop :=
  ∀ gc ∈ line.calls, ∀ a ∈ gc.2.arguments, ∀ m : Method, ¬ m.head <:+: a

/-- The first call of the first method that the line has. -/
def CallLine.first? (line : CallLine) : Option Call :=
  Method.all.findSome? fun m => (line.calls.find? fun gc => gc.2.method = m).map (·.2)

theorem Method.earlier_eq {m : Method} {before behind : List Method}
    (h : all = before ++ m :: behind) (hm : m ∉ before) : m.earlier = before := by
  rw [earlier, h, List.takeWhile_append_of_pos, List.takeWhile_cons_of_neg, List.append_nil]
  · simp
  · intro m' hm'
    rw [decide_eq_true_iff]
    rintro rfl
    exact hm hm'

theorem Method.goto_mem_earlier {m : Method} (hm : m ≠ .goto) : .goto ∈ m.earlier := by
  revert hm
  cases m <;> decide

/-- Where the first call of a line stands. -/
theorem CallLine.exists_of_first? {line : CallLine} {c : Call} (h : line.first? = some c) :
    ∃ before g behind, line.calls = before ++ (g, c) :: behind ∧
      (∀ gc ∈ before, gc.2.method ≠ c.method) ∧
        ∀ m ∈ c.method.earlier, ∀ gc ∈ line.calls, gc.2.method ≠ m := by
  obtain ⟨l₁, m, l₂, hall, hfind, hnone⟩ := List.findSome?_eq_some_iff.mp h
  obtain ⟨⟨g, c⟩, hfound, rfl⟩ := Option.map_eq_some_iff.mp hfind
  obtain ⟨hm, before, behind, hcalls, hbefore⟩ := List.find?_eq_some_iff_append.mp hfound
  obtain rfl : c.method = m := by simpa using hm
  have hl₁ : c.method ∉ l₁ := fun hmem => by
    rw [hnone _ hmem] at hfind
    cases hfind
  refine ⟨before, g, behind, hcalls, fun gc hgc => by simpa using hbefore gc hgc, ?_⟩
  intro m hm gc hgc
  rw [Method.earlier_eq hall hl₁] at hm
  have := Option.map_eq_none_iff.mp (hnone m hm)
  simpa using List.find?_eq_none.mp this gc hgc

theorem CallLine.calls_eq_nil {line : CallLine} (h : line.first? = none) : line.calls = [] := by
  rw [List.eq_nil_iff_forall_not_mem]
  intro gc hgc
  have hmem : gc.2.method ∈ Method.all := by cases gc.2.method <;> decide
  have := Option.map_eq_none_iff.mp (List.findSome?_eq_none_iff.mp h _ hmem)
  simpa using List.find?_eq_none.mp this gc hgc

/-- A line without a point gives no step. -/
theorem onLine?_eq_none {line : Text} (h : '.' ∉ line) : onLine? line = none := by
  have hfree {w : Text} (hw : '.' ∈ w) : ¬ w <:+: line := fun hi => h (hi.subset hw)
  have hcontains (m : Method) : Text.contains line m.head = false :=
    not_contains (hfree m.point_mem_head)
  have hquoted (method : Text) : (quotedCall [method]).find? line = none :=
    (quotedCall_beginsWith method).find?_eq_none (hfree List.mem_cons_self)
  have hgoto : gotoCall.find? line = none := hquoted "goto"
  have hselector : selectorWaitCall.find? line = none := hquoted "waitForSelector"
  have hwait : fixedWaitCall.find? line = none :=
    (Pattern.beginsWith_seq ".waitForTimeout(" _).find?_eq_none (hfree (by decide))
  have hclick : Text.contains line ".click(" = false := hcontains .click
  have hfill : Text.contains line ".fill(" = false := hcontains .fill
  have hupload : Text.contains line ".setInputFiles(" = false := hcontains .setInputFiles
  simp only [onLine?, hgoto, hclick, hfill, hupload, hselector, hwait]
  rfl

/-- Where no argument looks like a call, the step of a line is that of its first call of the first
method. -/
theorem onLine?_bland {line : CallLine} (hbland : line.IsBland)
    (hvalue : ∀ gc ∈ line.calls, ∀ value ∈ gc.2.value?, ')' ∉ value.text) :
    onLine? line.text = line.first?.map Call.step := by
  cases h : line.first? with
  | none =>
      refine onLine?_eq_none ?_
      rw [CallLine.text, CallLine.calls_eq_nil h]
      exact line.last.not_mem (by decide)
  | some c =>
      obtain ⟨before, g, behind, hcalls, hbefore, hearlier⟩ := CallLine.exists_of_first? h
      have hmem : (g, c) ∈ line.calls := by simp [hcalls]
      have hquiet (m : Method) (hm : m ∈ c.method.earlier) : ¬ m.head <:+: line.text := by
        intro hi
        obtain ⟨gc, hgc, h | ⟨a, ha, h⟩⟩ := head_infix_line hi
        · exact hearlier m hm gc hgc h
        · exact hbland gc hgc a ha m h
      have hline : line.text = (callsText before ++ (g.text ++ callStart)) ++
          (c.text ++ (callsText behind ++ line.last.text)) := by
        rw [CallLine.text, hcalls]
        simp [callsText, Call.statement]
      refine onLine?_eq_step hline (fun hc => ?_) (fun m hm _ => hquiet m hm) ?_ (hvalue _ hmem)
      · exact (quotedCall_beginsWith "goto").find?_eq_none (hquiet _ (Method.goto_mem_earlier hc))
      · refine not_head_infix_before g fun gc hgc => ⟨hbefore gc hgc, fun a ha => ?_⟩
        exact hbland gc (by simp [hcalls, hgc]) a ha _

/-! ### Numbered steps -/

section Numbered

variable {α : Type} {f g : α → List Step}

/-- The steps of some lines, each with the number of its line, the first of which is `n`. -/
def numbered (f : α → List Step) : Nat → List α → List Step
  | _, [] => []
  | n, x :: xs => (f x).map (fun s => { s with line := some (n : Int) }) ++ numbered f (n + 1) xs

theorem le_line_of_mem_numbered : ∀ {xs : List α} {n : Nat} {s : Step}, s ∈ numbered f n xs →
    ∃ k : Nat, n ≤ k ∧ s.line = some (k : Int)
  | x :: xs, n, s, hs => by
      rcases List.mem_append.mp hs with hs | hs
      · obtain ⟨s, -, rfl⟩ := List.mem_map.mp hs
        exact ⟨n, Nat.le_refl n, rfl⟩
      · obtain ⟨k, hk, hs⟩ := le_line_of_mem_numbered hs
        exact ⟨k, by omega, hs⟩

/-- The steps of a line are known by its number. -/
theorem numbered_eq_iff (hf : ∀ x, ∀ s ∈ f x, s.line = none) (hg : ∀ x, ∀ s ∈ g x, s.line = none) :
    ∀ {xs : List α} {n : Nat}, numbered f n xs = numbered g n xs ↔ ∀ x ∈ xs, f x = g x
  | [], n => by simp [numbered]
  | x :: xs, n => by
      let number (s : Step) : Step := { s with line := some (n : Int) }
      let isHere (s : Step) : Bool := s.line = some (n : Int)
      have hhere (l : List Step) : (l.map number).filter isHere = l.map number :=
        List.filter_eq_self.mpr fun s hs => by
          obtain ⟨s, -, rfl⟩ := List.mem_map.mp hs
          exact decide_eq_true rfl
      have hbelow (h : α → List Step) : (numbered h (n + 1) xs).filter isHere = [] :=
        List.filter_eq_nil_iff.mpr fun s hs => by
          obtain ⟨k, hk, hline⟩ := le_line_of_mem_numbered hs
          simp [isHere, hline]
          omega
      have hsteps (h : α → List Step) : numbered h n (x :: xs) =
          (h x).map number ++ numbered h (n + 1) xs := rfl
      rw [List.forall_mem_cons, ← numbered_eq_iff hf hg (n := n + 1), hsteps, hsteps]
      constructor
      · intro h
        have hfirst := congrArg (List.filter isHere) h
        rw [List.filter_append, List.filter_append, hhere, hhere, hbelow, hbelow, List.append_nil,
          List.append_nil] at hfirst
        rw [hfirst] at h
        refine ⟨?_, List.append_cancel_left h⟩
        have hclear {l : List Step} (hl : ∀ s ∈ l, s.line = none) :
            (l.map number).map (fun s => { s with line := none }) = l := by
          rw [List.map_map]
          refine (List.map_congr_left fun s hs => ?_).trans (List.map_id l)
          have := hl s hs
          cases s
          cases this
          rfl
        rw [← hclear (hf x), hfirst, hclear (hg x)]
      · rintro ⟨hx, h⟩
        rw [hx, h]

theorem stepsFrom_eq_numbered : ∀ (lines : List Text) (n : Nat),
    stepsFrom n lines = numbered (fun line => (onLine? line).toList) n lines
  | [], _ => rfl
  | line :: lines, n => by
      rw [stepsFrom, numbered, stepsFrom_eq_numbered lines (n + 1), Option.toList_map]

theorem numbered_map {β : Type} (h : β → α) : ∀ (ys : List β) (n : Nat),
    numbered f n (ys.map h) = numbered (fun y => f (h y)) n ys
  | [], _ => rfl
  | y :: ys, n => by rw [List.map_cons, numbered, numbered, numbered_map h ys (n + 1)]

end Numbered

/-! ### Pages of calls -/

def pageText (page : List CallLine) : Text := Text.joinLines (page.map CallLine.text)

theorem Call.newline_not_mem (c : Call) : '\n' ∉ c.text := by
  have hhead : '\n' ∉ callHead c.method.name := by cases c.method <;> decide +kernel
  have hend : '\n' ∉ callEnd := by decide +kernel
  have hclosing : '\n' ∉ c.closing := by
    cases hsecond : c.second? with
    | none =>
        rw [closing, hsecond]
        exact hend
    | some arg =>
        rw [closing_of_second? hsecond]
        simp [arg.inLine, hend]
  simp [text, quotedText, hhead, hclosing, c.target.inLine]

theorem CallLine.newline_not_mem (line : CallLine) : '\n' ∉ line.text := by
  have hstart : '\n' ∉ callStart := by decide +kernel
  simp only [CallLine.text, callsText, Call.statement, List.mem_append, List.mem_flatMap, not_or,
    not_exists, not_and]
  exact ⟨fun gc _ => ⟨gc.1.inLine, hstart, gc.2.newline_not_mem⟩, line.last.inLine⟩

theorem stepsOf_pageText (page : List CallLine) :
    stepsOf (pageText page) = numbered (fun line => (onLine? line.text).toList) 1 page := by
  cases page with
  | nil =>
      have hnone : onLine? [] = none := onLine?_eq_none List.not_mem_nil
      show ((onLine? []).map _).toList ++ [] = []
      rw [hnone]
      rfl
  | cons line page =>
      rw [stepsOf, pageText, Text.lines_joinLines, stepsFrom_eq_numbered, numbered_map]
      · simp
      · intro l hl
        obtain ⟨line, -, rfl⟩ := List.mem_map.mp hl
        exact line.newline_not_mem

theorem line_of_onLine? {line : Text} {s : Step} (h : onLine? line = some s) : s.line = none := by
  have hfill (h : fillOn? line = some s) : s.line = none := by
    rw [fillOn?] at h
    split at h
    · cases h
      rfl
    · obtain ⟨hit, -, rfl⟩ := Option.map_eq_some_iff.mp h
      rfl
  rw [onLine?] at h
  split at h
  · cases h
    rfl
  · split at h
    · cases h
      rfl
    · split at h
      · exact hfill h
      · split at h
        · cases h
          rfl
        · split at h
          · cases h
            rfl
          · obtain ⟨hit, -, rfl⟩ := Option.map_eq_some_iff.mp h
            rfl

/-- The steps of all calls on a line. -/
def CallLine.steps (line : CallLine) : List Step := line.calls.map fun gc => gc.2.step

/-- The one step that a line with calls gives. -/
def CallLine.firstStep (line : CallLine) : List Step := (line.first?.map Call.step).toList

/-- A line gives the steps of all its calls exactly when there is at most one and no argument of it
looks like a call of an earlier method. -/
theorem CallLine.onLine?_eq_steps_iff {line : CallLine}
    (hvalue : ∀ gc ∈ line.calls, ∀ value ∈ gc.2.value?, ')' ∉ value.text) :
    (onLine? line.text).toList = line.steps ↔
      line.calls.length ≤ 1 ∧ ∀ gc ∈ line.calls, gc.2.IsClear := by
  obtain ⟨calls, last⟩ := line
  match calls with
  | [] =>
      have hnone : onLine? (CallLine.text ⟨[], last⟩) = none :=
        onLine?_eq_none (last.not_mem (by decide))
      simp [hnone, steps]
  | [(g, c)] =>
      rw [steps, List.map_singleton, Option.toList_eq_singleton_iff,
        onLine?_call_iff (hvalue _ List.mem_cons_self)]
      simp
  | gc :: gc' :: rest =>
      refine ⟨fun h => ?_, fun h => absurd h.1 (by simp)⟩
      have hlength := congrArg List.length h
      have hone := Option.length_toList_le (o := onLine? (CallLine.text ⟨gc :: gc' :: rest, last⟩))
      simp only [steps, List.length_map, List.length_cons] at hlength
      omega

/-- On a page of calls no filled-in value of which holds a closing parenthesis, a line gives one step,
that of its first call of the first method, where no argument looks like a call; and every call gives
its step, in order and with the number of its line, exactly when no line has two calls and no argument
looks like a call of a method that is looked for earlier. -/
theorem stepsOf_calls (page : List CallLine)
    (hvalue : ∀ line ∈ page, ∀ gc ∈ line.calls, ∀ value ∈ gc.2.value?, ')' ∉ value.text) :
    ((∀ line ∈ page, line.IsBland) →
      stepsOf (pageText page) = numbered CallLine.firstStep 1 page) ∧
    (stepsOf (pageText page) = numbered CallLine.steps 1 page ↔
      ∀ line ∈ page, line.calls.length ≤ 1 ∧ ∀ gc ∈ line.calls, gc.2.IsClear) := by
  have hread (line : CallLine) : ∀ s ∈ (onLine? line.text).toList, s.line = none := fun s hs =>
    line_of_onLine? (Option.mem_toList.mp hs)
  have hfirst (line : CallLine) : ∀ s ∈ line.firstStep, s.line = none := by
    intro s hs
    obtain ⟨c, -, rfl⟩ := Option.map_eq_some_iff.mp (Option.mem_toList.mp hs)
    rfl
  have hall (line : CallLine) : ∀ s ∈ line.steps, s.line = none := by
    intro s hs
    obtain ⟨gc, -, rfl⟩ := List.mem_map.mp hs
    rfl
  rw [stepsOf_pageText, numbered_eq_iff hread hall]
  constructor
  · intro hbland
    refine (numbered_eq_iff hread hfirst).mpr fun line hline => ?_
    rw [onLine?_bland (hbland line hline) (hvalue line hline)]
    rfl
  · exact forall₂_congr fun line hline => line.onLine?_eq_steps_iff (hvalue line hline)

/-- `await page.goto('/login'); await page.click('#go');` and below it
`await page.fill('#name', 'Rex');`. -/
def formPage : List CallLine :=
  let gap (t : Text) (h : '\n' ∉ t ∧ (t.all fun x => decide (Text.isBlank x = true)) = true) : Gap :=
    ⟨t, h.1, Text.forall_mem_of_all h.2⟩
  let arg (t : Text) (h : '\n' ∉ t ∧ (t.all fun x => decide (isTitleMark x = false)) = true) :
      Argument := ⟨t, h.1, Text.forall_mem_of_all h.2⟩
  [⟨[(gap [] (by decide), .goto (arg "/login" (by decide +kernel))),
      (gap [' '] (by decide), .click (arg "#go" (by decide +kernel)))], gap [] (by decide)⟩,
    ⟨[(gap [' ', ' '] (by decide), .fill (arg "#name" (by decide +kernel))
      (arg "Rex" (by decide +kernel)))], gap [] (by decide)⟩]

/-- The click behind the other call on its line is left out. -/
theorem formPage_steps :
    (∀ line ∈ formPage, ∀ gc ∈ line.calls, ∀ value ∈ gc.2.value?, ')' ∉ value.text) ∧
    stepsOf (pageText formPage) = numbered CallLine.firstStep 1 formPage ∧
    stepsOf (pageText formPage) ≠ numbered CallLine.steps 1 formPage := by
  have hvalue : ∀ line ∈ formPage, ∀ gc ∈ line.calls, ∀ value ∈ gc.2.value?, ')' ∉ value.text := by
    decide +kernel
  have hpoint : ∀ line ∈ formPage, ∀ gc ∈ line.calls, ∀ a ∈ gc.2.arguments, '.' ∉ a := by
    decide +kernel
  refine ⟨hvalue, (stepsOf_calls formPage hvalue).1 fun line hline gc hgc a ha m h => ?_, fun h => ?_⟩
  · exact hpoint line hline gc hgc a ha (h.subset m.point_mem_head)
  · have hone := (stepsOf_calls formPage hvalue).2.mp h _ List.mem_cons_self
    exact absurd hone.1 (by decide)

/-- Not every call gives a step. -/
theorem second_call_left_out :
    ¬ ∀ page : List CallLine, stepsOf (pageText page) = numbered CallLine.steps 1 page := by
  intro h
  have hlength := congrArg List.length (h formPage)
  revert hlength
  decide +kernel

end Step
end SuiteAudit
