import SuiteAudit.Proofs.Source.QuotedCall
import SuiteAudit.Proofs.Text.Blanks

/-! # The step of a line of calls

A line of awaited calls holds the opening of a method where one of its calls has this method, or
inside an argument (`exists_of_head_infix`).  The reader of steps looks for the methods one after the
other, so the step of a line is that of its first call of the first method
(`onLine?_eq_step`), unless an argument looks like a call of an earlier one. -/

namespace SuiteAudit
namespace Step

open Opening

/-! ### Calls -/

/-- The methods with a quoted argument, in the order in which they are looked for. -/
inductive Method where
  | goto
  | click
  | fill
  | setInputFiles
  | waitForSelector
  deriving DecidableEq

namespace Method

def all : List Method := [goto, click, fill, setInputFiles, waitForSelector]

def name : Method → Text
  | goto => "goto"
  | click => "click"
  | fill => "fill"
  | setInputFiles => "setInputFiles"
  | waitForSelector => "waitForSelector"

def action : Method → StepAction
  | goto => .navigate
  | click => .click
  | fill => .fill
  | setInputFiles => .upload
  | waitForSelector => .waitForSelector

/-- What a call of the method begins with. -/
def head (m : Method) : Text := callHead m.name

/-- The methods that are looked for before this one. -/
def earlier (m : Method) : List Method := all.takeWhile fun m' => m' ≠ m

end Method

/-- A text that can stand between quotation marks on a line. -/
structure Argument where
  text : Text
  inLine : '\n' ∉ text
  unmarked : ∀ c ∈ text, isTitleMark c = false

/-- Blanks on a line. -/
structure Gap where
  text : Text
  inLine : '\n' ∉ text
  blank : ∀ c ∈ text, Text.isBlank c = true

/-- What stands before a call. -/
def callStart : Text := "await page"

/-- What stands behind its last argument. -/
def callEnd : Text := ");"

/-- A call on the page. -/
inductive Call where
  | goto (target : Argument)
  | click (target : Argument)
  | fill (target value : Argument)
  | setInputFiles (target file : Argument)
  | waitForSelector (target : Argument)

namespace Call

def method : Call → Method
  | goto _ => .goto
  | click _ => .click
  | fill _ _ => .fill
  | setInputFiles _ _ => .setInputFiles
  | waitForSelector _ => .waitForSelector

def target : Call → Argument
  | goto target | click target | fill target _ | setInputFiles target _ | waitForSelector target =>
    target

def second? : Call → Option Argument
  | fill _ value => some value
  | setInputFiles _ file => some file
  | goto _ | click _ | waitForSelector _ => none

/-- The value that is filled in. -/
def value? : Call → Option Argument
  | fill _ value => some value
  | goto _ | click _ | setInputFiles _ _ | waitForSelector _ => none

def arguments (c : Call) : List Text := c.target.text :: (c.second?.map (·.text)).toList

/-- What stands behind the first argument. -/
def closing (c : Call) : Text :=
  match c.second? with
  | none => callEnd
  | some a => ',' :: ' ' :: '\'' :: (a.text ++ '\'' :: callEnd)

def text (c : Call) : Text := quotedText c.method.name [] '\'' c.target.text ++ c.closing

/-- The call as a statement. -/
def statement (c : Call) : Text := callStart ++ c.text

/-- The step that the call is. -/
def step (c : Call) : Step where
  action := c.method.action
  target := some c.target.text
  data := c.value?.map (·.text)

end Call

/-! ### Where the opening of a method stands -/

theorem Method.eq_of_head_infix {m m' : Method} (h : m.head <:+: m'.head) : m' = m := by
  revert h
  cases m <;> cases m' <;> decide +kernel

theorem Method.mark_not_mem_head (m : Method) : '\'' ∉ m.head := by
  cases m <;> decide +kernel

theorem Method.point_mem_head (m : Method) : '.' ∈ m.head := List.mem_cons_self

theorem point_not_mem_callStart : '.' ∉ callStart := by decide +kernel

theorem point_not_mem_callEnd : '.' ∉ callEnd := by decide +kernel

theorem Gap.not_mem (g : Gap) {x : Char} (hx : Text.isBlank x = false) : x ∉ g.text := fun hm => by
  rw [g.blank x hm] at hx
  cases hx

variable {m : Method} {c : Call} {a b r : Text}

theorem infix_of_point_not_mem (ha : '.' ∉ a) (h : m.head <:+: a ++ b) : m.head <:+: b :=
  Text.infix_of_head_not_mem ha h

theorem infix_of_mark (h : m.head <:+: a ++ '\'' :: b) : m.head <:+: a ∨ m.head <:+: b :=
  Text.infix_of_barrier m.mark_not_mem_head h

theorem Call.text_append : c.text ++ r =
    c.method.head ++ '\'' :: (c.target.text ++ '\'' :: (c.closing ++ r)) := by
  rw [Call.text, List.append_assoc, quotedText_append]
  rfl

theorem head_infix_closing (h : m.head <:+: c.closing ++ r) :
    (∃ a ∈ c.second?, m.head <:+: a.text) ∨ m.head <:+: r := by
  rw [Call.closing] at h
  split at h
  · exact .inr (infix_of_point_not_mem point_not_mem_callEnd h)
  · next a ha =>
      simp only [List.append_assoc, List.cons_append] at h
      rcases infix_of_mark (a := [',', ' ']) h with h | h
      · exact absurd (h.subset m.point_mem_head) (by decide)
      · rcases infix_of_mark h with h | h
        · exact .inl ⟨a, ha, h⟩
        · exact .inr (infix_of_point_not_mem point_not_mem_callEnd h)

/-- The opening of a method stands in a call of it, in an argument or behind. -/
theorem head_infix_text (h : m.head <:+: c.text ++ r) :
    c.method = m ∨ (∃ a ∈ c.arguments, m.head <:+: a) ∨ m.head <:+: r := by
  rw [Call.text_append] at h
  rcases infix_of_mark h with h | h
  · exact .inl (Method.eq_of_head_infix h)
  · rcases infix_of_mark h with h | h
    · exact .inr (.inl ⟨_, List.mem_cons_self, h⟩)
    · rcases head_infix_closing h with ⟨a, ha, h⟩ | h
      · refine .inr (.inl ⟨a.text, List.mem_cons_of_mem _ ?_, h⟩)
        rw [Option.mem_def.mp ha]
        exact List.mem_singleton_self _
      · exact .inr (.inr h)

theorem method_infix_text (c : Call) (r : Text) : c.method.head <:+: c.text ++ r := by
  rw [Call.text_append]
  exact (List.prefix_append _ _).isInfix

theorem callEnd_eq : callEnd = [')', ';'] := by decide +kernel

theorem closing_of_second? {arg : Argument} (h : c.second? = some arg) :
    c.closing = [',', ' '] ++ '\'' :: (arg.text ++ '\'' :: callEnd) := by
  rw [Call.closing, h]
  rfl

theorem argument_infix_text {x : Text} (hx : x ∈ c.arguments) (r : Text) : x <:+: c.text ++ r := by
  rw [Call.text_append]
  rcases List.mem_cons.mp hx with rfl | hx
  · exact ⟨c.method.head ++ ['\''], '\'' :: (c.closing ++ r), by simp⟩
  · cases hsecond : c.second? with
    | none =>
        rw [hsecond] at hx
        cases hx
    | some arg =>
        rw [hsecond] at hx
        obtain rfl := List.mem_singleton.mp hx
        rw [closing_of_second? hsecond]
        exact ⟨c.method.head ++ '\'' :: (c.target.text ++ ['\'', ',', ' ', '\'']),
          '\'' :: (callEnd ++ r), by simp⟩

/-! ### Lines -/

/-- Calls one after the other, each behind some blanks. -/
def callsText (calls : List (Gap × Call)) : Text :=
  calls.flatMap fun gc => gc.1.text ++ gc.2.statement

theorem callsText_cons_append (g : Gap) (c : Call) (calls : List (Gap × Call)) (r : Text) :
    callsText ((g, c) :: calls) ++ r = g.text ++ (callStart ++ (c.text ++ (callsText calls ++ r))) := by
  simp [callsText, Call.statement]

/-- A line of calls. -/
structure CallLine where
  calls : List (Gap × Call)
  last : Gap

def CallLine.text (line : CallLine) : Text := callsText line.calls ++ line.last.text

theorem head_infix_calls : ∀ {calls : List (Gap × Call)}, m.head <:+: callsText calls ++ r →
    (∃ gc ∈ calls, gc.2.method = m ∨ ∃ a ∈ gc.2.arguments, m.head <:+: a) ∨ m.head <:+: r
  | [], h => .inr h
  | (g, c) :: calls, h => by
      rw [callsText_cons_append] at h
      have h := infix_of_point_not_mem point_not_mem_callStart
        (infix_of_point_not_mem (g.not_mem (by decide)) h)
      rcases head_infix_text h with h | h | h
      · exact .inl ⟨_, List.mem_cons_self, .inl h⟩
      · exact .inl ⟨_, List.mem_cons_self, .inr h⟩
      · exact (head_infix_calls h).imp_left fun ⟨gc, hm, h⟩ => ⟨gc, List.mem_cons_of_mem _ hm, h⟩

/-! ### The step of a line -/

theorem unquote_marked (v : Text) : unquote ('\'' :: (v ++ ['\''])) = v := by
  have hblank : Text.isBlank '\'' = false := by decide
  have hlast : ('\'' :: (v ++ ['\''])).getLast? = some '\'' := by
    rw [← List.cons_append, List.getLast?_concat]
  have htrim : Text.trim ('\'' :: (v ++ ['\''])) = '\'' :: (v ++ ['\'']) := by
    refine Text.trim_eq_self ⟨?_, ?_⟩
    · simp [hblank]
    · simp [hlast, hblank]
  have hmark : quoteMarks.elem '\'' = true := by decide +kernel
  simp only [unquote, htrim, List.head?_cons, hlast, hmark]
  simp

theorem mark_isTitleMark : isTitleMark '\'' = true := by decide +kernel

theorem Argument.mark_not_mem (arg : Argument) : '\'' ∉ arg.text := fun hm => by
  have := arg.unmarked _ hm
  rw [mark_isTitleMark] at this
  cases this

theorem find?_first {line : Text} (e : line = a ++ (c.text ++ r)) (ha : ¬ c.method.head <:+: a) :
    ∃ hit, (quotedCall [c.method.name]).find? line = some hit ∧ hit.group 2 = c.target.text := by
  rw [e, Call.text, List.append_assoc]
  refine find?_quotedCall (by simp) mark_isTitleMark c.target.inLine c.target.mark_not_mem ?_ ha
  cases c.method <;> decide +kernel

theorem find?_fill_first {line : Text} {target value : Argument}
    (e : line = a ++ ((Call.fill target value).text ++ r)) (ha : ¬ Method.fill.head <:+: a)
    (hvalue : ')' ∉ value.text) : ∃ hit, fillCall.find? line = some hit ∧
      hit.group 2 = target.text ∧ hit.group 3 = '\'' :: (value.text ++ ['\'']) := by
  have hblank : ∀ x ∈ ([' '] : Text), Text.isBlank x = true := Text.forall_mem_of_all (by decide)
  have hmark : Text.isBlank '\'' = false := by decide
  have hfresh : ')' ∉ '\'' :: (value.text ++ ['\'']) := by simp [hvalue]
  have hline : line = a ++ (quotedText "fill" [] '\'' target.text ++
      ',' :: ([' '] ++ ('\'' :: (value.text ++ ['\'']) ++ ')' :: ([';'] ++ r)))) := by
    have htext : (Call.fill target value).text =
        quotedText "fill" [] '\'' target.text ++ (Call.fill target value).closing := rfl
    have hsecond : (Call.fill target value).second? = some value := rfl
    rw [e, htext, closing_of_second? hsecond, callEnd_eq]
    simp
  rw [hline]
  exact find?_fillCall (by simp) mark_isTitleMark target.inLine target.mark_not_mem hblank hfresh
    (by simp [hmark]) ha

theorem contains_head {line : Text} (e : line = a ++ (c.text ++ r)) :
    Text.contains line c.method.head = true := by
  rw [Text.contains_iff, e]
  exact (method_infix_text c r).trans (List.suffix_append _ _).isInfix

theorem not_contains {line : Text} (h : ¬ m.head <:+: line) :
    Text.contains line m.head = false := by
  rw [← Bool.not_eq_true, Text.contains_iff]
  exact h

theorem not_contains_earlier (m method : Method) {line : Text}
    (hearlier : ∀ m ∈ method.earlier, m ≠ .goto → ¬ m.head <:+: line) (hm : m ∈ method.earlier)
    (hne : m ≠ .goto) : Text.contains line m.head = false :=
  not_contains (hearlier m hm hne)

/-- The step of a line is a call before which its method does not stand, if no earlier method stands
on the line. -/
theorem onLine?_eq_step {line : Text} (e : line = a ++ (c.text ++ r))
    (hgoto : c.method ≠ .goto → gotoCall.find? line = none)
    (hearlier : ∀ m ∈ c.method.earlier, m ≠ .goto → ¬ m.head <:+: line)
    (ha : ¬ c.method.head <:+: a) (hvalue : ∀ value ∈ c.value?, ')' ∉ value.text) :
    onLine? line = some c.step := by
  obtain ⟨hit, hfind, hgroup⟩ := find?_first e ha
  have hcontains := contains_head e
  cases c with
  | goto target =>
      have hfind : gotoCall.find? line = some hit := hfind
      simp only [onLine?, hfind, hgroup]
      rfl
  | click target =>
      have hfind : clickCall.find? line = some hit := hfind
      have hcontains : Text.contains line ".click(" = true := hcontains
      simp only [onLine?, hgoto Method.noConfusion, hcontains, if_true, targetOn?, hfind, hgroup]
      rfl
  | fill target value =>
      have hclick : Text.contains line ".click(" = false :=
        not_contains_earlier .click .fill hearlier (by decide) Method.noConfusion
      have hcontains : Text.contains line ".fill(" = true := hcontains
      obtain ⟨hit, hfind, hgroup, hdata⟩ := find?_fill_first e ha (hvalue value rfl)
      simp only [onLine?, hgoto Method.noConfusion, hclick, hcontains, if_true, fillOn?, hfind,
        hgroup, hdata, unquote_marked]
      rfl
  | setInputFiles target file =>
      have hclick : Text.contains line ".click(" = false :=
        not_contains_earlier .click .setInputFiles hearlier (by decide) Method.noConfusion
      have hfill : Text.contains line ".fill(" = false :=
        not_contains_earlier .fill .setInputFiles hearlier (by decide) Method.noConfusion
      have hfind : uploadCall.find? line = some hit := hfind
      have hcontains : Text.contains line ".setInputFiles(" = true := hcontains
      simp only [onLine?, hgoto Method.noConfusion, hclick, hfill, hcontains, if_true, targetOn?,
        hfind, hgroup]
      rfl
  | waitForSelector target =>
      have hclick : Text.contains line ".click(" = false :=
        not_contains_earlier .click .waitForSelector hearlier (by decide) Method.noConfusion
      have hfill : Text.contains line ".fill(" = false :=
        not_contains_earlier .fill .waitForSelector hearlier (by decide) Method.noConfusion
      have hupload : Text.contains line ".setInputFiles(" = false :=
        not_contains_earlier .setInputFiles .waitForSelector hearlier (by decide) Method.noConfusion
      have hfind : selectorWaitCall.find? line = some hit := hfind
      simp only [onLine?, hgoto Method.noConfusion, hclick, hfill, hupload, hfind, hgroup]
      rfl

theorem action_of_fillOn? {line : Text} {s : Step} (h : fillOn? line = some s) :
    s.action = .fill := by
  rw [fillOn?] at h
  split at h
  · cases h
    rfl
  · obtain ⟨hit, -, rfl⟩ := Option.map_eq_some_iff.mp h
    rfl

theorem Method.action_inj {m m' : Method} (h : m.action = m'.action) : m = m' := by
  revert h
  cases m <;> cases m' <;> decide

theorem not_infix_of_contains {line w : Text} (h : ¬ Text.contains line w = true) :
    ¬ w <:+: line := fun hw => h (Text.contains_iff.mpr hw)

/-- Where the step of a line is one of a method, no earlier method stands on the line. -/
theorem quiet_of_onLine? {line : Text} {s : Step} (h : onLine? line = some s)
    (hs : s.action = m.action) : (m ≠ .goto → gotoCall.find? line = none) ∧
      ∀ m' ∈ m.earlier, m' ≠ .goto → ¬ m'.head <:+: line := by
  rw [onLine?] at h
  split at h
  · cases h
    obtain rfl : Method.goto = m := Method.action_inj hs
    exact ⟨fun hne => absurd rfl hne, fun _ hm => by cases hm⟩
  · next hgoto =>
    refine ⟨fun _ => hgoto, ?_⟩
    split at h
    · cases h
      obtain rfl : Method.click = m := Method.action_inj hs
      have : Method.click.earlier = [.goto] := by decide
      simp [this]
    · next hclick =>
      have hclick : ¬ Method.click.head <:+: line := not_infix_of_contains hclick
      split at h
      · obtain rfl : Method.fill = m := Method.action_inj ((action_of_fillOn? h).symm.trans hs)
        have : Method.fill.earlier = [.goto, .click] := by decide
        simpa [this] using hclick
      · next hfill =>
        have hfill : ¬ Method.fill.head <:+: line := not_infix_of_contains hfill
        split at h
        · cases h
          obtain rfl : Method.setInputFiles = m := Method.action_inj hs
          have : Method.setInputFiles.earlier = [.goto, .click, .fill] := by decide
          simpa [this] using ⟨hclick, hfill⟩
        · next hupload =>
          have hupload : ¬ Method.setInputFiles.head <:+: line := not_infix_of_contains hupload
          split at h
          · cases h
            obtain rfl : Method.waitForSelector = m := Method.action_inj hs
            have : Method.waitForSelector.earlier = [.goto, .click, .fill, .setInputFiles] := by
              decide
            simpa [this] using ⟨hclick, hfill, hupload⟩
          · obtain ⟨hit, -, rfl⟩ := Option.map_eq_some_iff.mp h
            cases m <;> cases hs

end Step
end SuiteAudit
