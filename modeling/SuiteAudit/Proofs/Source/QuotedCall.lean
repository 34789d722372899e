import SuiteAudit.Proofs.Pattern.FixedText
import SuiteAudit.Proofs.Source.CaseCall
import SuiteAudit.Source.Step

/-! # Calls with a quoted argument

The pattern of a call begins with a point, the method and a parenthesis (`quotedCall_beginsWith`),
and it takes a quoted argument up to the first mark that closes it (`tryAt_quotedCall`).  So the
first call of a method on a line gives the argument that stands there
(`find?_quotedCall`). -/

namespace SuiteAudit
namespace Pattern

variable {α : Type} {place : Place} {g : Groups} {rest : Place → Groups → Option α} {p : Char → Bool}
  {next : Pattern} {number : Nat} {s r : Text} {c : Char} {x : α}

/-! ### One step of a pattern -/

theorem tryAt_exactly (e : place.rest = s ++ r) :
    (exactly s).tryAt place g rest = rest (place.advance s) g := by
  rw [tryAt, if_pos]
  rw [List.isPrefixOf_iff_prefix]
  exact ⟨r, e.symm⟩

theorem tryAt_exactly_seq (e : place.rest = s ++ r)
    (hx : next.tryAt (place.advance s) g rest = some x) :
    (seq (exactly s) next).tryAt place g rest = some x := by
  rw [tryAt, tryAt_exactly e]
  exact hx

theorem tryAt_one_seq (e : place.rest = c :: r) (hc : p c = true)
    (hx : next.tryAt (place.advance [c]) ((number, ⟨place.rest, 1⟩) :: g) rest = some x) :
    (seq (group number (one p)) next).tryAt place g rest = some x := by
  obtain ⟨before, _, offset⟩ := place
  obtain rfl : _ = c :: r := e
  refine (if_pos hc).trans ?_
  rw [Nat.add_sub_cancel_left]
  exact hx

theorem greedyRun_eq (p : Char → Bool) (rest : Place → Option α) {x : α} : ∀ (s r : Text)
    (least : Nat) (before : Option Char) (offset : Nat), (∀ c ∈ s, p c = true) →
      r.head?.any p = false → least ≤ s.length →
      rest (Place.advance ⟨before, s ++ r, offset⟩ s) = some x →
      greedyRun p rest least before (s ++ r) offset = some x
  | [], [], least, before, offset, _, _, hl, hx => by
      obtain rfl := Nat.le_zero.mp hl
      simpa [greedyRun] using hx
  | [], c :: r, least, before, offset, _, hr, hl, hx => by
      obtain rfl := Nat.le_zero.mp hl
      have hc : p c = false := hr
      rw [Place.advance_nil, List.nil_append] at hx
      rw [List.nil_append, greedyRun, hc, if_neg (by decide), Option.none_or, if_pos rfl, hx]
  | c :: s, r, least, before, offset, hs, hr, hl, hx => by
      have hleast : least - 1 ≤ s.length := by
        rw [List.length_cons] at hl
        omega
      rw [List.cons_append, Place.advance_cons] at hx
      rw [List.cons_append, greedyRun, if_pos (hs c List.mem_cons_self)]
      rw [greedyRun_eq p rest s r _ _ _ (fun d hd => hs d (List.mem_cons_of_mem c hd)) hr hleast hx,
        Option.some_or]

/-- A greedy run takes all that it can, if the rest of the pattern goes on from there. -/
theorem tryAt_run_seq {least : Nat} (e : place.rest = s ++ r) (hs : ∀ c ∈ s, p c = true)
    (hr : r.head?.any p = false) (hl : least ≤ s.length)
    (hx : next.tryAt (place.advance s) g rest = some x) :
    (seq (run true least p) next).tryAt place g rest = some x := by
  obtain ⟨before, _, offset⟩ := place
  obtain rfl : _ = s ++ r := e
  exact greedyRun_eq p _ s r least before offset hs hr hl hx

theorem tryAt_group_run_seq (e : place.rest = s ++ r) (hs : ∀ c ∈ s, p c = true)
    (hr : r.head?.any p = false)
    (hx : next.tryAt (place.advance s) ((number, ⟨place.rest, s.length⟩) :: g) rest = some x) :
    (seq (group number (run true 0 p)) next).tryAt place g rest = some x := by
  obtain ⟨before, _, offset⟩ := place
  obtain rfl : _ = s ++ r := e
  refine greedyRun_eq p _ s r 0 before offset hs hr (Nat.zero_le _) ?_
  have hlength : offset + s.length - offset = s.length := Nat.add_sub_cancel_left ..
  rw [← hlength] at hx
  exact hx

end Pattern

namespace Step

open Opening

variable {method : Text} {q : Char} {ws s r : Text}

/-- What a call of a method begins with. -/
def callHead (method : Text) : Text := '.' :: (method ++ ['('])

/-- A call with a quoted argument, up to the mark that closes it. -/
def quotedText (method ws : Text) (q : Char) (s : Text) : Text :=
  callHead method ++ (ws ++ q :: (s ++ [q]))

theorem quotedText_append : quotedText method ws q s ++ r =
    callHead method ++ (ws ++ q :: (s ++ q :: r)) := by
  simp [quotedText]

theorem prefix_of_quotedCall_takes {place : Place} {g g' : Groups}
    (h : (quotedCall [method]).Takes place g s g') : callHead method <+: place.rest := by
  refine List.IsPrefix.trans ?_ h.isPrefix
  obtain ⟨_, _, _, ⟨-, rfl, -⟩, ⟨_, _, _, ⟨-, rfl, -⟩, ⟨_, _, _, ⟨-, rfl, -⟩, -, rfl⟩, rfl⟩, rfl⟩ := h
  exact ⟨_, by simp [callHead]; rfl⟩

theorem quotedCall_beginsWith (method : Text) :
    (quotedCall [method]).BeginsWith (callHead method) := by
  intro place hit hm
  obtain ⟨s, groups, htakes, -⟩ := Pattern.matchAt_sound hm
  exact prefix_of_quotedCall_takes htakes

theorem fillCall_beginsWith : fillCall.BeginsWith (callHead "fill") := by
  intro place hit hm
  obtain ⟨s, groups, ⟨_, _, _, htakes, -, -⟩, -⟩ := Pattern.matchAt_sound hm
  exact prefix_of_quotedCall_takes htakes

/-- The groups of a call whose argument stands before `r`. -/
def quotedGroups (q : Char) (s r : Text) : Groups :=
  [(2, ⟨s ++ q :: r, s.length⟩), (1, ⟨q :: (s ++ q :: r), 1⟩)]

/-- A call takes its argument up to the first mark that closes it, if the rest of the pattern goes on
from there. -/
theorem tryAt_quotedCall {α : Type} {place : Place} {rest : Place → Groups → Option α} {x : α}
    (hws : ∀ c ∈ ws, Text.isBlank c = true) (hq : isTitleMark q = true) (hline : '\n' ∉ s)
    (hfresh : q ∉ s) (e : place.rest = quotedText method ws q s ++ r)
    (hx : rest (place.advance (quotedText method ws q s)) (quotedGroups q s r) = some x) :
    (quotedCall [method]).tryAt place [] rest = some x := by
  have e₀ : place.rest =
      ("." : Text) ++ (method ++ (("(" : Text) ++ (ws ++ ([q] ++ (s ++ q :: r))))) := by
    rw [e, quotedText_append]
    simp [callHead]
  -- what is left behind each part
  have e₁ := Place.advance_rest e₀
  have e₂ := Place.advance_rest e₁
  have e₃ := Place.advance_rest e₂
  have e₄ := Place.advance_rest e₃
  have e₅ := Place.advance_rest e₄
  refine Pattern.tryAt_exactly_seq e₀ (Pattern.tryAt_exactly_seq e₁ (Pattern.tryAt_exactly_seq e₂
    (Pattern.tryAt_run_seq e₃ hws (head?_titleMark hq _) (Nat.zero_le _)
      (Pattern.tryAt_one_seq e₄ hq (tryAt_title_of_rest rfl ?_ hline hfresh e₅ ?_)))))
  · rw [e₄]
    rfl
  · have hplace : place.advance (quotedText method ws q s) = (((((place.advance ("." : Text)).advance
        method).advance ("(" : Text)).advance ws).advance [q]).advance (s ++ [q]) := by
      simp only [← Place.advance_append]
      simp [quotedText, callHead]
    rw [hplace] at hx
    rw [e₅, e₄]
    exact hx

/-! ### The first call on a line -/

theorem callHead_eq (method : Text) : callHead method = '.' :: method ++ ['('] := rfl

theorem exists_quotedCall_matchAt (method r : Text) (b : Option Char) (o : Nat)
    (hws : ∀ c ∈ ws, Text.isBlank c = true) (hq : isTitleMark q = true) (hline : '\n' ∉ s)
    (hfresh : q ∉ s) : ∃ hit,
      (quotedCall [method]).matchAt ⟨b, quotedText method ws q s ++ r, o⟩ = some hit ∧
        hit.group 2 = s := by
  refine ⟨_, tryAt_quotedCall hws hq hline hfresh rfl rfl, ?_⟩
  simp [Hit.group, Hit.group?, quotedGroups, Stretch.text]

/-- Where a call with a quoted argument stands, the pattern finds something. -/
theorem find?_quotedCall_ne_none {a : Text} (hws : ∀ c ∈ ws, Text.isBlank c = true)
    (hq : isTitleMark q = true) (hline : '\n' ∉ s) (hfresh : q ∉ s) :
    (quotedCall [method]).find? (a ++ (quotedText method ws q s ++ r)) ≠ none := by
  intro hnone
  obtain ⟨hit, hm, -⟩ :=
    exists_quotedCall_matchAt method r a.getLast? a.length hws hq hline hfresh
  rw [Pattern.find?_eq_none_iff.mp hnone a _ rfl] at hm
  cases hm

/-- The first call of a method gives its argument. -/
theorem find?_quotedCall {a : Text} (hws : ∀ c ∈ ws, Text.isBlank c = true)
    (hq : isTitleMark q = true) (hline : '\n' ∉ s) (hfresh : q ∉ s) (hmethod : '(' ∉ '.' :: method)
    (ha : ¬ callHead method <:+: a) :
    ∃ hit, (quotedCall [method]).find? (a ++ (quotedText method ws q s ++ r)) = some hit ∧
      hit.group 2 = s := by
  obtain ⟨hit, hm, hgroup⟩ :=
    exists_quotedCall_matchAt method r a.getLast? a.length hws hq hline hfresh
  rw [quotedText_append, callHead_eq] at hm ⊢
  exact ⟨hit, (quotedCall_beginsWith method).find?_eq_some hmethod ha hm, hgroup⟩

/-- The pattern of a value up to the parenthesis behind it. -/
def valuePart : Pattern :=
  .chain [.blanks, .lit ",", .blanks, .group 3 (.run true 0 (Pattern.notAmong ")")), .lit ")"]

theorem tryAt_valuePart {α : Type} {place : Place} {g : Groups} {rest : Place → Groups → Option α}
    {x : α} {value : Text} (hws : ∀ c ∈ ws, Text.isBlank c = true) (hvalue : ')' ∉ value)
    (hstart : (value ++ ')' :: r).head?.any Text.isBlank = false)
    (e : place.rest = ',' :: (ws ++ (value ++ ')' :: r)))
    (hx : rest (place.advance (',' :: (ws ++ (value ++ [')']))))
      ((3, ⟨value ++ ')' :: r, value.length⟩) :: g) = some x) :
    valuePart.tryAt place g rest = some x := by
  have e₁ : place.rest = [] ++ ',' :: (ws ++ (value ++ ')' :: r)) := e
  have e₂ := Place.advance_rest e₁
  have e₃ := Place.advance_rest (s := (",": Text)) e₂
  have e₄ := Place.advance_rest e₃
  have e₅ := Place.advance_rest e₄
  have hall : ∀ c ∈ value, Pattern.notAmong ")" c = true := by
    intro c hc
    have : c ≠ ')' := fun e => hvalue (e ▸ hc)
    simpa [Pattern.notAmong] using this
  have hcomma : Text.isBlank ',' = false := by decide
  refine Pattern.tryAt_run_seq e₁ (by simp) hcomma (Nat.zero_le _) (Pattern.tryAt_exactly_seq e₂
    (Pattern.tryAt_run_seq e₃ hws hstart (Nat.zero_le _)
      (Pattern.tryAt_group_run_seq e₄ hall (by simp [Pattern.notAmong]) ?_)))
  refine (Pattern.tryAt_exactly (s := (")" : Text)) e₅).trans ?_
  have hplace : place.advance (',' :: (ws ++ (value ++ [')']))) = ((((place.advance []).advance
      ("," : Text)).advance ws).advance value).advance (")" : Text) := by
    simp only [← Place.advance_append]
    simp
  rw [hplace] at hx
  rw [e₄]
  exact hx

/-- The first call that fills in gives its two arguments. -/
theorem find?_fillCall {a ws' value : Text} (hws : ∀ c ∈ ws, Text.isBlank c = true)
    (hq : isTitleMark q = true) (hline : '\n' ∉ s) (hfresh : q ∉ s)
    (hws' : ∀ c ∈ ws', Text.isBlank c = true) (hvalue : ')' ∉ value)
    (hstart : (value ++ ')' :: r).head?.any Text.isBlank = false) (ha : ¬ callHead "fill" <:+: a) :
    ∃ hit, fillCall.find?
        (a ++ (quotedText "fill" ws q s ++ ',' :: (ws' ++ (value ++ ')' :: r)))) = some hit ∧
      hit.group 2 = s ∧ hit.group 3 = value := by
  obtain ⟨hit, hm, hgroup⟩ : ∃ hit, fillCall.matchAt ⟨a.getLast?,
      quotedText "fill" ws q s ++ ',' :: (ws' ++ (value ++ ')' :: r)), a.length⟩ = some hit ∧
      hit.group 2 = s ∧ hit.group 3 = value := by
    refine ⟨_, tryAt_quotedCall hws hq hline hfresh rfl
      (tryAt_valuePart hws' hvalue hstart (Place.advance_rest rfl) rfl), ?_⟩
    simp [Hit.group, Hit.group?, quotedGroups, Stretch.text, List.lookup_cons]
  rw [quotedText_append, callHead_eq] at hm ⊢
  exact ⟨hit, fillCall_beginsWith.find?_eq_some (by decide) ha hm, hgroup⟩

/-- Where the pattern takes something, a call with a quoted argument stands. -/
theorem exists_of_quotedCall_takes {place : Place} {g g' : Groups} {k : Text}
    (h : (quotedCall [method]).Takes place g k g') : ∃ ws q s,
      (∀ c ∈ ws, Text.isBlank c = true) ∧ isTitleMark q = true ∧ k = quotedText method ws q s := by
  obtain ⟨_, _, _, ⟨-, rfl, -⟩, ⟨_, _, _, ⟨-, rfl, -⟩, ⟨_, _, _, ⟨-, rfl, -⟩, h, rfl⟩, rfl⟩, rfl⟩ := h
  obtain ⟨ws, _, _, ⟨-, hws, -, -⟩, ⟨_, _, g₁, ⟨_, ⟨q, r, e, hq, rfl, -⟩, rfl⟩, h, rfl⟩, rfl⟩ := h
  obtain ⟨s, _, _, ⟨_, ⟨-, -, -, rfl⟩, rfl⟩, ⟨stretch, hlook, rfl, -, -⟩, rfl⟩ := h
  obtain rfl := Option.some.inj hlook
  refine ⟨ws, q, s, hws, hq, ?_⟩
  rw [Stretch.text, e]
  simp [quotedText, callHead]

theorem exists_of_quotedCall_find? {t : Text} {hit : Hit}
    (h : (quotedCall [method]).find? t = some hit) : ∃ a ws q s r,
      (∀ c ∈ ws, Text.isBlank c = true) ∧ isTitleMark q = true ∧
        t = a ++ (quotedText method ws q s ++ r) := by
  obtain ⟨a, r, rfl, hm⟩ := Pattern.exists_of_find? h
  obtain ⟨k, groups, htakes, -⟩ := Pattern.matchAt_sound hm
  obtain ⟨u, rfl⟩ := htakes.isPrefix
  obtain ⟨ws, q, s, hws, hq, rfl⟩ := exists_of_quotedCall_takes htakes
  exact ⟨a, ws, q, s, u, hws, hq, rfl⟩

end Step
end SuiteAudit
