import SuiteAudit.Proofs.Source.CaseNames

/-! # Lines put between others

A quiet line holds no call and no brace, and neither begins nor ends within one (`IsQuiet`).  Quiet
lines may be put between the lines of a text, as long as each of its calls lies within a line: the
calls stay the same (`Padded.reads`), and so do the names of the blocks (`Padded.namesFrom_eq`). -/

namespace SuiteAudit
namespace Opening

/-- A line that neither holds a part of a call nor a brace. -/
structure IsQuiet (x : Text) : Prop where
  line : '\n' ∉ x
  reads : Reads false x []
  closed : ¬ EndsOpen false x
  untitled : ¬ Titled x
  passes : ∀ b, Titled (x ++ '\n' :: b) → Titled b
  noOpen : '\x7b' ∉ x
  noClose : '\x7d' ∉ x

theorem not_endsOpen_nil {w : Bool} : ¬ EndsOpen w [] := by
  rintro ⟨a, head, ws, e, -, hhead, -⟩
  obtain ⟨-, e⟩ := List.append_eq_nil_iff.mp e.symm
  obtain ⟨rfl, -⟩ := List.append_eq_nil_iff.mp e
  exact absurd hhead (by decide)

theorem not_titled_nil : ¬ Titled [] := by
  rintro ⟨ws, q, title, r, e, -⟩
  cases ws <;> cases e

theorem isQuiet_nil : IsQuiet [] where
  line := List.not_mem_nil
  reads := .nil
  closed := not_endsOpen_nil
  untitled := not_titled_nil
  passes := by
    rintro b ⟨ws, q, title, r, e, hws, hq, hm⟩
    cases ws with
    | nil =>
        obtain ⟨rfl, -⟩ := List.cons.inj e
        cases hq
    | cons c ws =>
        obtain ⟨-, rfl⟩ := List.cons.inj e
        exact ⟨ws, q, title, r, rfl, fun c hc => hws c (List.mem_cons_of_mem _ hc), hq, hm⟩
  noOpen := List.not_mem_nil
  noClose := List.not_mem_nil

/-- What begins otherwise behind its blanks begins with no title. -/
theorem not_titled_of_start {ws t : Text} {c : Char} (hws : ∀ c ∈ ws, Text.isBlank c = true)
    (hc : Text.isBlank c = false) (hm : isTitleMark c = false) : ¬ Titled (ws ++ c :: t) := by
  rintro ⟨ws', q, title, r, e, hws', hq, -⟩
  have hstart : (c :: t).head?.any Text.isBlank = false := hc
  obtain ⟨-, e⟩ := Text.run_append_inj hws hws' hstart (head?_titleMark hq _) e
  obtain ⟨rfl, -⟩ := List.cons.inj e
  rw [hm] at hq
  cases hq

theorem not_endsOpen_of_not_mem {w : Bool} {x : Text} (h : '(' ∉ x) : ¬ EndsOpen w x := by
  rintro ⟨a, head, ws, rfl, -, hhead, -⟩
  exact h (List.mem_append_right a (List.mem_append_left ws (paren_mem_of_mem_head hhead)))

/-- What ends within a call ends with its parenthesis or a blank. -/
theorem not_endsOpen_concat {w : Bool} {x : Text} {c : Char} (hb : Text.isBlank c = false)
    (hc : c ≠ '(') : ¬ EndsOpen w (x ++ [c]) := by
  rintro ⟨a, head, ws, e, -, hhead, hws⟩
  have hlast := congrArg List.getLast? e
  rw [List.getLast?_concat, List.getLast?_append, List.getLast?_append] at hlast
  cases h : ws.getLast? with
  | some d =>
      rw [h] at hlast
      rw [Option.some.inj hlast, hws d (List.mem_of_getLast? h)] at hb
      cases hb
  | none =>
      rw [h, getLast?_of_mem_head hhead] at hlast
      exact hc (Option.some.inj hlast)

theorem not_opensCall_of_not_mem {t : Text} (h : '(' ∉ t) : ¬ OpensCall t := by
  rintro ⟨q, title, k, hk, r, rfl⟩
  exact h (List.mem_append_left r hk.paren_mem)

theorem reads_of_not_mem : ∀ {t : Text} {w : Bool}, '(' ∉ t → Reads w t []
  | [], _, _ => .nil
  | _ :: _, _, h => .pass (fun _ => not_opensCall_of_not_mem h)
      (reads_of_not_mem fun hm => h (List.mem_cons_of_mem _ hm))

/-- No call goes over a space, nor does it begin in what holds no parenthesis. -/
theorem passes_of_space {t : Text} : ∀ {s : Text} {w : Bool}, '(' ∉ s ++ [' '] →
    Passes w (s ++ [' ']) t
  | [], _, _ => ⟨fun _ => not_opensCall_cons (by decide) t, trivial⟩
  | c :: s, _, h => by
      refine ⟨fun _ => ?_, passes_of_space fun hm => h (List.mem_cons_of_mem c hm)⟩
      rintro ⟨q, title, k, ⟨-, -, -, head, ws, hhead, -, rfl⟩, r, e⟩
      have e' : head ++ (ws ++ q :: (title ++ [q]) ++ r) = (c :: s) ++ ' ' :: t := by
        rw [← List.append_assoc, e]
        simp
      obtain ⟨v, hv, -⟩ := Text.exists_of_append_eq (not_mem_head (by decide) hhead) e'
      refine h (List.mem_append_left [' '] ?_)
      rw [hv]
      exact List.mem_append_left v (paren_mem_of_mem_head hhead)

/-- What is no mark closes no call. -/
theorem Reads.concat {w : Bool} {t : Text} {c : Char} {calls : List (Char × Text × Text)}
    (h : Reads w t calls) (hm : isTitleMark c = false) (hc : Text.isWordChar c = false) :
    Reads w (t ++ [c]) calls := by
  induction h with
  | nil => exact .pass (fun _ => not_opensCall_cons hc []) .nil
  | @pass w d t calls hno _ ih =>
      refine .pass (fun hw ho => ?_) ih
      obtain ⟨q, title, k, hk, hp⟩ := ho
      have hp : k <+: (d :: t) ++ [c] := hp
      rcases Text.prefix_append hp with hp | ⟨s, hs, rfl, hsc⟩
      · exact hno hw ⟨q, title, k, hk, hp⟩
      · have hlast := hk.getLast?
        cases s with
        | nil => exact hs rfl
        | cons x s =>
            obtain ⟨rfl, hsn⟩ := List.cons_prefix_cons.mp hsc
            obtain rfl := List.prefix_nil.mp hsn
            rw [List.getLast?_concat] at hlast
            rw [Option.some.inj hlast, hk.mark] at hm
            cases hm
  | call hk _ ih =>
      rw [List.append_assoc]
      exact ih.call hk

/-- Where the pattern does not occur, no call is read. -/
theorem reads_of_occursIn {t : Text} (h : case.pattern.occursIn t = false) : Reads false t [] := by
  obtain ⟨calls, hr⟩ := Reads.exists_calls false t
  cases calls with
  | nil => exact hr
  | cons c calls =>
      have hf := hr.findAll
      rw [Pattern.occursIn, Pattern.find?_eq_head? case_advances] at h
      cases hl : case.pattern.findAll t with
      | nil => rw [hl] at hf; cases hf
      | cons hit hits => rw [hl] at h; cases h

/-- A line without calls that begins with no title and does not end within a call. -/
theorem IsQuiet.of_start {ws t : Text} {c : Char} (hws : ∀ c ∈ ws, Text.isBlank c = true)
    (hc : Text.isBlank c = false) (hm : isTitleMark c = false)
    (hreads : Reads false (ws ++ c :: t) []) (hclosed : ¬ EndsOpen false (ws ++ c :: t))
    (hline : '\n' ∉ ws ++ c :: t) (hopen : '\x7b' ∉ ws ++ c :: t)
    (hclose : '\x7d' ∉ ws ++ c :: t) : IsQuiet (ws ++ c :: t) where
  line := hline
  reads := hreads
  closed := hclosed
  untitled := not_titled_of_start hws hc hm
  passes := fun b h => by
    rw [List.append_assoc] at h
    exact absurd h (not_titled_of_start hws hc hm)
  noOpen := hopen
  noClose := hclose

/-- A comment without a parenthesis. -/
theorem IsQuiet.comment {ws t : Text} (hws : ∀ c ∈ ws, Text.isBlank c = true)
    (hparen : '(' ∉ ws ++ '/' :: t) (hline : '\n' ∉ ws ++ '/' :: t)
    (hopen : '\x7b' ∉ ws ++ '/' :: t) (hclose : '\x7d' ∉ ws ++ '/' :: t) :
    IsQuiet (ws ++ '/' :: t) :=
  .of_start hws (by decide) (by decide) (reads_of_not_mem hparen)
    (not_endsOpen_of_not_mem hparen) hline hopen hclose

theorem IsQuiet.sign_eq {x : Text} (h : IsQuiet x) : case.sign x = .blank :=
  sign_eq_blank h.reads h.noOpen h.noClose

/-- A quiet line between two others, or before or behind all of them. -/
theorem reads_insert {pre post : List Text} {x : Text} {calls : List (Char × Text × Text)}
    (hx : IsQuiet x) (h : Reads false (Text.joinLines (pre ++ post)) calls)
    (hcalls : ∀ c ∈ calls, '\n' ∉ c.2.2) :
    Reads false (Text.joinLines (pre ++ x :: post)) calls := by
  cases pre with
  | nil =>
      cases post with
      | nil =>
          obtain rfl := Reads.eq_nil h
          rw [List.nil_append, Text.joinLines_singleton]
          exact hx.reads
      | cons y post =>
          rw [List.nil_append, Text.joinLines_cons_cons]
          exact hx.reads.append_newline h fun ho => absurd ho hx.closed
  | cons l pre =>
      cases post with
      | nil =>
          rw [List.append_nil] at h
          rw [Text.joinLines_append (List.cons_ne_nil l pre) (List.cons_ne_nil x []),
            Text.joinLines_singleton]
          have := h.append_newline hx.reads fun _ => hx.untitled
          rwa [List.append_nil] at this
      | cons y post =>
          rw [Text.joinLines_append (List.cons_ne_nil l pre) (List.cons_ne_nil y post)] at h
          rw [Text.joinLines_append (List.cons_ne_nil l pre) (List.cons_ne_nil x (y :: post)),
            Text.joinLines_cons_cons]
          obtain ⟨before, hb⟩ := Reads.exists_calls false (Text.joinLines (l :: pre))
          obtain ⟨behind, hp⟩ := Reads.exists_calls false (Text.joinLines (y :: post))
          have hopen := h.not_titled hcalls
          obtain rfl := h.unique (hb.append_newline hp hopen)
          refine hb.append_newline (hx.reads.append_newline hp fun ho => absurd ho hx.closed) ?_
          exact fun ho ht => hopen ho (hx.passes _ ht)

/-- Some lines with quiet lines put between them. -/
inductive Padded (ls : List Text) : List Text → Prop
  | refl : Padded ls ls
  | insert {pre post : List Text} {x : Text} : IsQuiet x → Padded ls (pre ++ post) →
      Padded ls (pre ++ x :: post)

namespace Padded

variable {ls ls' : List Text}

theorem insert_append {post : List Text} : ∀ {block pre : List Text}, (∀ x ∈ block, IsQuiet x) →
    Padded ls (pre ++ post) → Padded ls (pre ++ block ++ post)
  | [], pre, _, h => by rwa [List.append_nil]
  | x :: block, pre, hx, h => by
      have h' : Padded ls (pre ++ [x] ++ post) := by
        rw [List.append_assoc]
        exact h.insert (hx x List.mem_cons_self)
      have := insert_append (fun y hy => hx y (List.mem_cons_of_mem x hy)) h'
      rwa [List.append_assoc pre [x] block] at this

theorem reads {calls : List (Char × Text × Text)} (hp : Padded ls ls')
    (h : Reads false (Text.joinLines ls) calls) (hcalls : ∀ c ∈ calls, '\n' ∉ c.2.2) :
    Reads false (Text.joinLines ls') calls := by
  induction hp with
  | refl => exact h
  | insert hx _ ih => exact reads_insert hx ih hcalls

theorem namesFrom_eq (hp : Padded ls ls') :
    namesFrom none (ls'.map case.sign) = namesFrom none (ls.map case.sign) := by
  induction hp with
  | refl => rfl
  | @insert pre post x hx _ ih =>
      rw [← ih, List.map_append, List.map_append, List.map_cons, hx.sign_eq]
      exact namesFrom_insert _ _ none fun o h => by cases h

end Padded
end Opening
end SuiteAudit
