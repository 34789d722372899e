import SuiteAudit.Proofs.Source.CallsRead

/-! # What a scan reads of the lines

Of a line the scan reads what block opens on it and what braces it holds (`LineSign`), and the names
of the blocks depend on nothing else (`names_scanFrom`).  A line on which nothing opens and which
holds no brace is not seen at all (`namesFrom_insert`). -/

namespace SuiteAudit

/-- What the scan reads of a line. -/
structure LineSign where
  name? : Option Text
  net : Int
  brace : Bool

/-- What the scan reads of a line that may open a block. -/
def Opening.sign (opening : Opening) (line : Text) : LineSign :=
  ⟨opening.onLine? line, netBraces line, line.elem '\x7b'⟩

/-- What the scan knows of a region that has begun. -/
structure OpenSign where
  name : Text
  depth : Int
  seenBrace : Bool

def OpenBlock.sign (o : OpenBlock) : OpenSign := ⟨o.span.name, o.depth, o.seenBrace⟩

namespace OpenSign

def start (name : Text) (s : LineSign) : OpenSign := ⟨name, s.net, s.brace⟩

def add (o : OpenSign) (s : LineSign) : OpenSign := ⟨o.name, o.depth + s.net, o.seenBrace || s.brace⟩

/-- The region ends with its last line, as a block or not. -/
def Settled (o : OpenSign) : Prop := o.depth < 0 ∨ o.seenBrace = true ∧ o.depth = 0

instance (o : OpenSign) : Decidable o.Settled := inferInstanceAs (Decidable (_ ∨ _))

/-- The names of the blocks that end with the last line of a region. -/
def names (o : OpenSign) : List Text := if o.depth < 0 then [] else [o.name]

end OpenSign

/-- A line by which a scan goes on. -/
def nextSign (state : Option OpenSign) (s : LineSign) : Option OpenSign :=
  match state with
  | some o => some (o.add s)
  | none => s.name?.map fun name => .start name s

/-- The names of the blocks among some lines, when a region may be open before them. -/
def namesFrom : Option OpenSign → List LineSign → List Text
  | _, [] => []
  | state, s :: rest =>
    match nextSign state s with
    | none => namesFrom none rest
    | some o => if o.Settled then o.names ++ namesFrom none rest else namesFrom (some o) rest

theorem blocksOf_append (a b : List Region) : blocksOf (a ++ b) = blocksOf a ++ blocksOf b :=
  List.filterMap_append

theorem settle?_sign (o : OpenBlock) :
    (o.sign.Settled → ∃ region, o.settle? = some region ∧
      (blocksOf [region]).map Block.name = o.sign.names) ∧
    (¬ o.sign.Settled → o.settle? = none) := by
  unfold OpenSign.Settled OpenSign.names OpenBlock.settle? OpenBlock.sign
  by_cases hneg : o.depth < 0
  · simp [hneg, blocksOf, Region.block?]
  · by_cases hzero : o.seenBrace = true ∧ o.depth = 0
    · simp [hzero, blocksOf, Region.block?]
    · simp [hneg, hzero]

/-- The names of the blocks depend on what the scan reads of the lines. -/
theorem names_scanFrom (opening : Opening) : ∀ (lines : List Text) (lineNo : Int)
    (state : Option OpenBlock), (blocksOf (scanFrom opening lineNo state lines)).map Block.name =
      namesFrom (state.map OpenBlock.sign) (lines.map opening.sign)
  | [], lineNo, none => rfl
  | [], lineNo, some o => rfl
  | line :: rest, lineNo, state => by
      have ih := names_scanFrom opening rest (lineNo + 1)
      have hstep : ∀ (o : OpenBlock) (regions : List Region),
          (∀ region, o.settle? = some region →
            regions = region :: scanFrom opening (lineNo + 1) none rest) →
          (o.settle? = none → regions = scanFrom opening (lineNo + 1) (some o) rest) →
          (blocksOf regions).map Block.name =
            if o.sign.Settled then o.sign.names ++ namesFrom none (rest.map opening.sign)
            else namesFrom (some o.sign) (rest.map opening.sign) := by
        intro o regions hends hgoes
        by_cases hs : o.sign.Settled
        · obtain ⟨region, hr, hn⟩ := (settle?_sign o).1 hs
          rw [hends region hr, if_pos hs, ← hn]
          refine (congrArg (List.map Block.name) (blocksOf_append [region] _)).trans ?_
          rw [List.map_append, ih none]
          rfl
        · rw [hgoes ((settle?_sign o).2 hs), if_neg hs]
          exact ih (some o)
      cases state with
      | some o =>
          rw [scanFrom]
          exact hstep (o.add line) _ (fun region hr => by rw [hr]) fun hr => by rw [hr]
      | none =>
          rw [scanFrom, List.map_cons, Option.map_none, namesFrom, nextSign, Opening.sign]
          cases opening.onLine? line with
          | none => exact ih none
          | some name =>
              simp only [Option.map_some]
              exact hstep (.start name opening.kind lineNo line) _ (fun region hr => by rw [hr])
                fun hr => by rw [hr]

theorem names_casesOf (content : Text) : (casesOf content).map Block.name =
    namesFrom none ((Text.lines content).map Opening.case.sign) :=
  names_scanFrom .case _ 1 none

/-! ### The sign of a line -/

namespace Opening

/-- What opens on a line is the first of its calls. -/
theorem onLine?_case {line : Text} {calls : List (Char × Text × Text)} (h : Reads false line calls) :
    case.onLine? line = (calls.head?.map callContent).map fun c =>
      nameOf ⟨0, c.1, c.2⟩ := by
  have hc := congrArg List.head? h.findAll
  rw [List.head?_map, List.head?_map] at hc
  rw [onLine?, Pattern.find?_eq_head? case_advances, ← hc, Option.map_map]
  rfl

/-- Lines with the same calls and as many braces have the same sign. -/
theorem sign_eq {line line' : Text} {calls : List (Char × Text × Text)} (h : Reads false line calls)
    (h' : Reads false line' calls) (hopen : line'.count '\x7b' = line.count '\x7b')
    (hclose : line'.count '\x7d' = line.count '\x7d') : case.sign line' = case.sign line := by
  have hb : line'.elem '\x7b' = line.elem '\x7b' := by
    rw [Bool.eq_iff_iff, List.elem_iff, List.elem_iff, ← List.count_pos_iff, hopen,
      List.count_pos_iff]
  have hn : netBraces line' = netBraces line := by
    unfold netBraces Text.countChar
    rw [hopen, hclose]
  rw [sign, sign, onLine?_case h, onLine?_case h', hn, hb]

end Opening

/-! ### Lines that are not seen -/

/-- Nothing opens on a line, and it holds no brace. -/
def LineSign.blank : LineSign := ⟨none, 0, false⟩

theorem OpenSign.add_blank (o : OpenSign) : o.add .blank = o := by
  simp [OpenSign.add, LineSign.blank]

/-- A line on which nothing opens and that holds no brace changes no names, when the region before it
goes on. -/
theorem namesFrom_insert (post : List LineSign) : ∀ (pre : List LineSign)
    (state : Option OpenSign), (∀ o, state = some o → ¬ o.Settled) →
      namesFrom state (pre ++ .blank :: post) = namesFrom state (pre ++ post)
  | [], none, _ => rfl
  | [], some o, h => by
      rw [List.nil_append, namesFrom, nextSign, OpenSign.add_blank]
      simp only [h o rfl, if_false]
      rfl
  | s :: pre, state, _ => by
      have ih := namesFrom_insert post pre
      rw [List.cons_append, List.cons_append, namesFrom, namesFrom]
      split
      · exact ih none fun o h => by cases h
      · next o ho =>
        split
        · rw [ih none fun o h => by cases h]
        · next hs => exact ih (some o) fun o' h => by rwa [← Option.some.inj h]

theorem Opening.sign_eq_blank {line : Text} (h : Reads false line []) (hopen : '\x7b' ∉ line)
    (hclose : '\x7d' ∉ line) : case.sign line = .blank := by
  rw [sign_eq .nil h (List.count_eq_zero.mpr hopen) (List.count_eq_zero.mpr hclose)]
  rfl

end SuiteAudit
