import SuiteAudit.Proofs.Refactoring.GivenName
import SuiteAudit.Proofs.Refactoring.RepeatedSteps
import SuiteAudit.Proofs.Source.Regions

/-! # The braces of helpers

Steps become a helper when they have as many opening as closing braces, wherever these stand.  The
function around some steps ends at its last brace just when they are nested
(`closesAtEnd_methodText`); else they close a brace that they have not opened, and the function ends
there (`not_isNested_iff`). -/

namespace SuiteAudit

variable {t u head mid foot : Text}

/-! ### Nesting -/

/-- From the start on there are never more closing braces than opening ones, and in the end there
are as many. -/
def IsNested (t : Text) : Prop :=
  (∀ s, s <+: t → s.count '\x7d' ≤ s.count '\x7b') ∧ t.count '\x7b' = t.count '\x7d'

instance (t : Text) : Decidable (IsNested t) :=
  decidable_of_iff
    ((∀ s ∈ t.inits, s.count '\x7d' ≤ s.count '\x7b') ∧ t.count '\x7b' = t.count '\x7d')
    (by simp only [List.mem_inits, IsNested])

/-- A closing brace stands behind a nested beginning, so that it closes nothing of the text. -/
def ClosesUnopened (t : Text) : Prop := ∃ s r, t = s ++ '\x7d' :: r ∧ IsNested s

/-- The first closing brace too many stands behind a nested beginning. -/
theorem closesUnopened_iff (t : Text) :
    ClosesUnopened t ↔ ∃ s, s <+: t ∧ s.count '\x7b' < s.count '\x7d' := by
  constructor
  · rintro ⟨s, r, rfl, -, hcount⟩
    refine ⟨s ++ ['\x7d'], ⟨r, by simp⟩, ?_⟩
    simp [hcount]
  · -- by the last character, so that a beginning with too many is cut before it if it can be
    induction t using List.reverseRecOn with
    | nil =>
        rintro ⟨s, hs, hlt⟩
        rw [List.prefix_nil.mp hs] at hlt
        exact absurd hlt (lt_irrefl _)
    | append_singleton front c ih =>
        rintro ⟨s, hs, hlt⟩
        by_cases hfront : ∃ s, s <+: front ∧ s.count '\x7b' < s.count '\x7d'
        · obtain ⟨q, r, rfl, hq⟩ := ih hfront
          exact ⟨q, r ++ [c], by simp, hq⟩
        · have hprefix : ∀ s, s <+: front → s.count '\x7d' ≤ s.count '\x7b' :=
            fun s hs => Nat.le_of_not_lt fun hlt => hfront ⟨s, hs, hlt⟩
          have hwhole : s = front ++ [c] :=
            (List.prefix_concat_iff.mp hs).resolve_right fun hs => hfront ⟨s, hs, hlt⟩
          have hle := hprefix front (List.prefix_refl front)
          rw [hwhole, List.count_append, List.count_append, List.count_singleton,
            List.count_singleton] at hlt
          have hc : c = '\x7d' := by
            by_contra hne
            simp [hne] at hlt
            omega
          subst hc
          refine ⟨front, [], rfl, hprefix, ?_⟩
          simp at hlt
          omega

theorem not_isNested_iff (h : t.count '\x7b' = t.count '\x7d') :
    ¬ IsNested t ↔ ClosesUnopened t := by
  rw [closesUnopened_iff, IsNested, and_iff_left h]
  push Not
  rfl

/-! ### Texts around a nested one -/

def isBrace (c : Char) : Bool := c == '\x7b' || c == '\x7d'

def HasNoBrace (t : Text) : Prop := ∀ c ∈ t, isBrace c = false

theorem HasNoBrace.of_all (h : (t.all fun c => !isBrace c) = true) : HasNoBrace t := fun c hc => by
  simpa using List.all_eq_true.mp h c hc

theorem HasNoBrace.append (ht : HasNoBrace t) (hu : HasNoBrace u) : HasNoBrace (t ++ u) :=
  fun c hc => (List.mem_append.mp hc).elim (ht c) (hu c)

theorem HasNoBrace.count_eq_zero (h : HasNoBrace t) {c : Char} (hc : isBrace c = true) :
    t.count c = 0 :=
  List.count_eq_zero.mpr fun hm => by
    rw [h c hm] at hc
    cases hc

theorem HasNoBrace.not_settled (h : HasNoBrace t) : ¬ Settled t := by
  rintro (⟨hm, -⟩ | hlt)
  · exact absurd (h _ hm) (by decide)
  · rw [OverClosed, h.count_eq_zero rfl, h.count_eq_zero rfl] at hlt
    exact absurd hlt (lt_irrefl 0)

theorem isNested_filter (t : Text) : IsNested (t.filter isBrace) ↔ IsNested t := by
  have hcount : ∀ s : Text, (s.filter isBrace).count '\x7b' = s.count '\x7b' ∧
      (s.filter isBrace).count '\x7d' = s.count '\x7d' :=
    fun s => ⟨List.count_filter rfl, List.count_filter rfl⟩
  rw [IsNested, IsNested, (hcount t).1, (hcount t).2]
  refine and_congr_left fun _ => ⟨fun h s hs => ?_, fun h s hs => ?_⟩
  · rw [← (hcount s).1, ← (hcount s).2]
    exact h _ (hs.filter isBrace)
  · obtain ⟨s', hs', rfl⟩ := List.prefix_filter_iff.mp hs
    rw [(hcount s').1, (hcount s').2]
    exact h s' hs'

/-- A text ends a block with its last brace: no beginning without it does. -/
def ClosesAtEnd (t : Text) : Prop :=
  Balanced t ∧ ∀ s r, t = s ++ r → '\x7d' ∈ r → ¬ Settled s

/-- A block ends with its last brace just when what stands in it is nested. -/
theorem closesAtEnd_iff (hhead : HasNoBrace head) (hfoot : HasNoBrace foot) :
    ClosesAtEnd (head ++ '\x7b' :: (mid ++ '\x7d' :: foot)) ↔ IsNested mid := by
  have hopen := hhead.count_eq_zero (c := '\x7b') rfl
  have hclose := hhead.count_eq_zero (c := '\x7d') rfl
  have hsettled : ∀ s : Text, Settled (head ++ '\x7b' :: s) ↔ s.count '\x7b' < s.count '\x7d' := by
    intro s
    simp [Settled, Balanced, OverClosed, hopen, hclose]
    omega
  have hbalanced : Balanced (head ++ '\x7b' :: (mid ++ '\x7d' :: foot)) ↔
      mid.count '\x7b' = mid.count '\x7d' := by
    simp [Balanced, hopen, hclose, hfoot.count_eq_zero (c := '\x7b') rfl,
      hfoot.count_eq_zero (c := '\x7d') rfl]
  rw [ClosesAtEnd, hbalanced, IsNested, and_comm]
  refine and_congr_left fun _ => ⟨fun h s hs => ?_, fun h s r e hr hs => ?_⟩
  · obtain ⟨r, rfl⟩ := hs
    have := h (head ++ '\x7b' :: s) (r ++ '\x7d' :: foot) (by simp) (by simp)
    rw [hsettled] at this
    exact Nat.le_of_not_lt this
  · have hclose : '\x7d' ∉ foot := fun hm => absurd (hfoot _ hm) (by decide)
    have hbefore : s <+: head ++ '\x7b' :: mid :=
      Text.prefix_before_last hclose (by simpa using e) hr
    obtain hin | ⟨s₁, hne, rfl, hin⟩ := Text.prefix_append hbefore
    · have hnone : HasNoBrace s := fun c hc => hhead c (hin.subset hc)
      exact hnone.not_settled hs
    · obtain rfl | ⟨s₂, rfl, hmid⟩ := List.prefix_cons_iff.mp hin
      · exact hne rfl
      · exact absurd ((hsettled s₂).mp hs) (Nat.not_lt_of_le (h s₂ hmid))

/-! ### The function around some steps -/

/-- What stands in the function around some steps. -/
def bodyOf (snippet : Text) : Text :=
  '\n' :: (Text.joinLines ((Text.lines snippet).map fun line => "  " ++ line) ++ ['\n'])

theorem methodText_eq (snippet name : Text) : methodText snippet name =
    ("/**\n * Shared steps extracted from repeated code\n */\nasync function " ++ name ++
      "(page: Page): Promise<void> ") ++ '\x7b' :: (bodyOf snippet ++ '\x7d' :: ['\n']) := by
  have hbody : (Text.lines snippet).map (fun line : Text => ("  " ++ line : Text)) ≠ [] := by
    simpa using Text.lines_ne_nil snippet
  rw [methodText, Text.joinLines_middle (List.cons_ne_nil _ _) hbody (List.cons_ne_nil _ _), bodyOf]
  simp [Text.joinLines_cons_cons, Text.joinLines_singleton]

theorem filter_joinLines_map {p : Char → Bool} (indent : Text) (h : indent.filter p = []) :
    ∀ ls : List Text, (Text.joinLines (ls.map fun line => indent ++ line)).filter p =
      (Text.joinLines ls).filter p
  | [] => rfl
  | [l] => by simp [Text.joinLines_singleton, h]
  | l :: m :: ls => by
      have ih := filter_joinLines_map indent h (m :: ls)
      rw [List.map_cons] at ih
      rw [List.map_cons, List.map_cons, Text.joinLines_cons_cons, Text.joinLines_cons_cons,
        List.filter_append, List.filter_append, List.filter_append, h, List.filter_cons, ih,
        List.filter_cons, List.nil_append]

theorem isNested_bodyOf (snippet : Text) : IsNested (bodyOf snippet) ↔ IsNested snippet := by
  rw [← isNested_filter, ← isNested_filter snippet, bodyOf]
  have h := filter_joinLines_map (p := isBrace) "  " (by decide) (Text.lines snippet)
  rw [Text.joinLines_lines] at h
  have hend : ['\n'].filter isBrace = [] := rfl
  rw [List.filter_cons_of_neg (by decide), List.filter_append, h, hend, List.append_nil]

/-- The function around some steps ends with its last brace just when the steps are nested. -/
theorem closesAtEnd_methodText {name : Text} (hname : HasNoBrace name) (snippet : Text) :
    ClosesAtEnd (methodText snippet name) ↔ IsNested snippet := by
  rw [methodText_eq, closesAtEnd_iff, isNested_bodyOf]
  · exact (HasNoBrace.append (.of_all (by decide)) hname).append (.of_all (by decide))
  · exact .of_all (by decide)

namespace Methods

/-! ### Names of helpers -/

theorem hasNoBrace_ofNat (n : Nat) : HasNoBrace (Text.ofNat n) := fun _ hc =>
  forall_nameChar (P := fun c => isBrace c = false) (by decide +kernel) (isNameChar_of_mem_ofNat hc)

theorem hasNoBrace_baseName (snippet : Text) (count : Nat) :
    HasNoBrace (baseName snippet count) := by
  have hname : baseName snippet count =
      ((nameHints.find? fun p => Text.contains (Text.lower snippet) p.1).map (·.2)).getD
        ("extractedMethod" ++ Text.ofNat (count + 1)) := rfl
  rw [hname]
  cases hf : nameHints.find? fun p => Text.contains (Text.lower snippet) p.1 with
  | none =>
      have hword : HasNoBrace "extractedMethod" := .of_all (by decide)
      exact hword.append (hasNoBrace_ofNat _)
  | some p =>
      have hall : ∀ p ∈ nameHints, HasNoBrace p.2 := by
        intro p hp
        refine .of_all ?_
        revert p
        decide
      exact hall p (List.mem_of_find?_eq_some hf)

theorem hasNoBrace_unusedName {base : Text} (h : HasNoBrace base) (taken : List Text) :
    HasNoBrace (unusedName base taken) := by
  obtain e | ⟨n, e⟩ := unusedName_eq base taken <;> rw [e]
  · exact h
  · have hmark : HasNoBrace "_" := .of_all (by decide)
    exact (h.append hmark).append (hasNoBrace_ofNat n)

/-! ### The helpers of a file -/

/-- The steps that the context does not have are entered behind its own, in order. -/
theorem methods_foldl_add : ∀ {entries : Table Text (List Nat)} (context : Context)
    (taken : List Text) (changes : List Change), entries.keys.Nodup →
    ∃ entered : Table Text Text,
      (entries.foldl add (context, taken, changes)).1.methods = context.methods ++ entered ∧
      entered.keys = entries.keys.filter (fun text => !context.methods.has text) ∧
      ∀ p ∈ entered, HasNoBrace p.2
  | [], _, _, _, _ => ⟨[], by simp, rfl, by simp⟩
  | entry :: entries, context, taken, changes, hd => by
      obtain ⟨hfresh, hrest⟩ := List.nodup_cons.mp hd
      rw [List.foldl_cons]
      obtain ⟨name, hold, e⟩ | ⟨name, hnew, hname, e⟩ := add_cases context taken changes entry
      · rw [e]
        obtain ⟨entered, hm, hkeys, hnames⟩ :=
          methods_foldl_add context taken (changes ++ [change entry.1 name entry.2]) hrest
        have hhas : context.methods.has entry.1 = true := Table.has_iff.mpr ⟨name, hold⟩
        refine ⟨entered, hm, ?_, hnames⟩
        rw [hkeys]
        exact (List.filter_cons_of_neg (by simp [hhas])).symm
      · rw [e]
        obtain ⟨entered, hm, hkeys, hnames⟩ := methods_foldl_add
          { context with methods := context.methods ++ [(entry.1, name)] } (name :: taken)
          (changes ++ [change entry.1 name entry.2]) hrest
        refine ⟨(entry.1, name) :: entered, by rw [hm]; simp, ?_, ?_⟩
        · have hothers : ∀ text ∈ Table.keys entries,
              (!Table.has text (context.methods ++ [(entry.1, name)])) =
                !context.methods.has text := by
            intro text ht
            have hne : text ≠ entry.1 := fun e => hfresh (e ▸ ht)
            rw [← Table.set_of_has_eq_false hnew, Table.has_set, decide_eq_false hne,
              Bool.false_or]
          have hall : (Table.keys (entry :: entries)).filter
              (fun text => !context.methods.has text) =
                entry.1 :: (Table.keys entries).filter fun text => !context.methods.has text :=
            List.filter_cons_of_pos (by simp [hnew])
          rw [hall, ← List.filter_congr hothers, ← hkeys]
          rfl
        · refine List.forall_mem_cons.mpr ⟨?_, hnames⟩
          rw [hname]
          exact hasNoBrace_unusedName (hasNoBrace_baseName _ _) _

theorem count_eq_of_mem_repetitions {code : List (Nat × Text)} {r : Repetition}
    (h : r ∈ repetitions code) : r.text.count '\x7b' = r.text.count '\x7d' := by
  obtain ⟨i, hi, rfl⟩ := List.mem_map.mp h
  obtain ⟨hhelper, -⟩ := of_decide_eq_true (List.mem_filter.mp hi).2
  exact hhelper.2

/-- The helpers that a file enters are its repeated steps that the context does not have.  They have
as many opening as closing braces, but the function around one of them ends with its last brace just
when its steps are nested: else they close a brace that they have not opened. -/
theorem helper_ends_iff (content : Text) (context : Context) : ∃ entered : Table Text Text,
    (extract content context).1.methods = context.methods ++ entered ∧
    entered.keys = ((repetitions (codeLines content)).map (·.text)).filter
      (fun text => !context.methods.has text) ∧
    ∀ p ∈ entered, p.1.count '\x7b' = p.1.count '\x7d' ∧
      (ClosesAtEnd (methodText p.1 p.2) ↔ IsNested p.1) ∧
      (¬ IsNested p.1 ↔ ClosesUnopened p.1) := by
  obtain ⟨entered, hm, hkeys, hnames⟩ :=
    methods_foldl_add context context.names [] (nodup_keys_repeated content)
  rw [keys_repeated] at hkeys
  refine ⟨entered, hm, hkeys, fun p hp => ?_⟩
  have hkey : p.1 ∈ entered.keys := List.mem_map_of_mem hp
  rw [hkeys] at hkey
  obtain ⟨r, hr, hrp⟩ := List.mem_map.mp (List.mem_filter.mp hkey).1
  have hcount := count_eq_of_mem_repetitions hr
  rw [hrp] at hcount
  exact ⟨hcount, closesAtEnd_methodText (hnames p hp) p.1, not_isNested_iff hcount⟩

/-- A branch that stands twice, and its steps. -/
def wholeBranch : Text := "if (a) \x7b\n  open();\n\x7d\nif (a) \x7b\n  open();\n\x7d"
def branchSteps : Text := "if (a) \x7b\nopen();\n\x7d"

theorem wholeBranch_ends :
    (extract wholeBranch {}).1.methods = [(branchSteps, ("extractedMethod1" : Text))] ∧
    ClosesAtEnd (methodText branchSteps "extractedMethod1") := by
  have hmethods : (extract wholeBranch {}).1.methods =
      [(branchSteps, ("extractedMethod1" : Text))] := by decide +kernel
  obtain ⟨entered, hm, -, hentered⟩ := helper_ends_iff wholeBranch {}
  obtain rfl : entered = [(branchSteps, ("extractedMethod1" : Text))] := hm.symm.trans hmethods
  exact ⟨hmethods, (hentered _ List.mem_cons_self).2.1.mpr (by decide)⟩

/-- Two conditions with the same branches, and the steps around the other branch. -/
def sameBranches : Text :=
  "if (a) \x7b\n  x();\n\x7d else \x7b\n  y();\n\x7d\n" ++
    "if (b) \x7b\n  x();\n\x7d else \x7b\n  y();\n\x7d"
def otherBranchSteps : Text := "x();\n\x7d else \x7b\ny();"

/-- The steps around the other branch become a helper that ends within them. -/
theorem sameBranches_ends_early :
    (extract sameBranches {}).1.methods = [(otherBranchSteps, ("extractedMethod1" : Text))] ∧
    ¬ IsNested otherBranchSteps ∧
    ¬ ClosesAtEnd (methodText otherBranchSteps "extractedMethod1") := by
  have hnested : ¬ IsNested otherBranchSteps := by decide
  refine ⟨by decide +kernel, hnested, fun h => hnested ?_⟩
  have hname : HasNoBrace "extractedMethod1" := .of_all (by decide)
  exact (closesAtEnd_methodText hname _).mp h

end Methods
end SuiteAudit
