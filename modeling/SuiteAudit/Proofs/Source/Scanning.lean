import SuiteAudit.Source.Block

/-! # How a scan goes on

A line either belongs to no region or to one, the open one or one that it opens (`OpenBlock.with?`);
behind it this region has ended or stays open.  `scan_cases` is the induction over a scan that follows
from this.  A scan may be cut at any line and taken up again with the region that is open there
(`scanFrom_append`). -/

namespace SuiteAudit

variable {opening : Opening}

/-- The region that a line belongs to: the open one with this line, or one that the line opens. -/
def OpenBlock.with? (opening : Opening) (lineNo : Int) (state : Option OpenBlock) (line : Text) :
    Option OpenBlock :=
  match state with
  | some o => some (o.add line)
  | none => (opening.onLine? line).map fun name => .start name opening.kind lineNo line

/-- The region that is open behind some lines, when `state` is open before them. -/
def openAfter (opening : Opening) : Int → Option OpenBlock → List Text → Option OpenBlock
  | _, state, [] => state
  | lineNo, state, line :: rest =>
    openAfter opening (lineNo + 1)
      ((OpenBlock.with? opening lineNo state line).filter fun o => o.settle?.isNone) rest

/-- The regions that end within some lines, when `state` is open before them. -/
def endedIn (opening : Opening) : Int → Option OpenBlock → List Text → List Region
  | _, _, [] => []
  | lineNo, state, line :: rest =>
    ((OpenBlock.with? opening lineNo state line).bind OpenBlock.settle?).toList ++
      endedIn opening (lineNo + 1)
        ((OpenBlock.with? opening lineNo state line).filter fun o => o.settle?.isNone) rest

namespace Region

/-- A line with a given number lies in the region. -/
def Covers (region : Region) (n : Int) : Prop :=
  region.span.startLine ≤ n ∧ n ≤ region.span.endLine

instance (region : Region) (n : Int) : Decidable (region.Covers n) :=
  inferInstanceAs (Decidable (_ ∧ _))

theorem exists_warning (b : Block) (reason : DropReason) :
    ∃ w, (Region.dropped b reason).warning? = some w := by
  cases reason <;> exact ⟨_, rfl⟩

end Region

/-! ### Steps -/

theorem span_of_settle? {o : OpenBlock} {region : Region} (h : o.settle? = some region) :
    region.span = o.span := by
  unfold OpenBlock.settle? at h
  split at h
  · rw [← Option.some.inj h]
    rfl
  · split at h
    · rw [← Option.some.inj h]
      rfl
    · cases h

theorem endLine_add (o : OpenBlock) (line : Text) :
    (o.add line).span.endLine = o.span.endLine + 1 := by
  simp [OpenBlock.add, Block.endLine, Block.lineCount]
  omega

/-- What a scan does with a line. -/
theorem scanFrom_cons (opening : Opening) (lineNo : Int) (state : Option OpenBlock) (line : Text)
    (rest : List Text) : scanFrom opening lineNo state (line :: rest) =
      ((OpenBlock.with? opening lineNo state line).bind OpenBlock.settle?).toList ++
        scanFrom opening (lineNo + 1)
          ((OpenBlock.with? opening lineNo state line).filter fun o => o.settle?.isNone) rest := by
  cases state with
  | none =>
      cases hline : opening.onLine? line with
      | none => simp [scanFrom, OpenBlock.with?, hline]
      | some name =>
          cases hs : (OpenBlock.start name opening.kind lineNo line).settle? <;>
            simp [scanFrom, OpenBlock.with?, hline, hs, Option.filter_some]
  | some o =>
      cases hs : (o.add line).settle? <;> simp [scanFrom, OpenBlock.with?, hs, Option.filter_some]

/-- Induction over the steps of a scan: nothing opens on a line, or it belongs to a region that ends
with it or stays open. -/
theorem scan_cases (opening : Opening)
    {motive : Int → Option OpenBlock → List Text → List Region → Prop}
    (nil : ∀ n, motive n none [] [])
    (unterminated : ∀ n o, motive n (some o) [] [.dropped o.span .unterminated])
    (idle : ∀ n line rest regions, opening.onLine? line = none → motive (n + 1) none rest regions →
      motive n none (line :: rest) regions)
    (ends : ∀ n state line rest o region regions, OpenBlock.with? opening n state line = some o →
      o.settle? = some region → motive (n + 1) none rest regions →
      motive n state (line :: rest) (region :: regions))
    (goes : ∀ n state line rest o regions, OpenBlock.with? opening n state line = some o →
      o.settle? = none → motive (n + 1) (some o) rest regions →
      motive n state (line :: rest) regions) :
    ∀ (lines : List Text) (n : Int) (state : Option OpenBlock),
      motive n state lines (scanFrom opening n state lines)
  | [], n, none => nil n
  | [], n, some o => unterminated n o
  | line :: rest, n, state => by
      have ih := scan_cases opening nil unterminated idle ends goes rest (n + 1)
      rw [scanFrom_cons]
      cases hw : OpenBlock.with? opening n state line with
      | none =>
          cases state with
          | some o => cases hw
          | none => exact idle n line rest _ (Option.map_eq_none_iff.mp hw) (ih none)
      | some o =>
          cases hs : o.settle? with
          | some region =>
              have hends := ends n state line rest o region _ hw hs (ih none)
              simpa [hs, Option.filter_some] using hends
          | none =>
              have hgoes := goes n state line rest o _ hw hs (ih (some o))
              simpa [hs, Option.filter_some] using hgoes

/-! ### A scan that is cut -/

/-- Behind some lines a scan goes on with the region that is open there. -/
theorem scanFrom_append (opening : Opening) :
    ∀ (a b : List Text) (n : Int) (state : Option OpenBlock), scanFrom opening n state (a ++ b) =
      endedIn opening n state a ++ scanFrom opening (n + a.length) (openAfter opening n state a) b
  | [], b, n, state => by simp [endedIn, openAfter]
  | line :: a, b, n, state => by
      have hn : n + (line :: a).length = n + 1 + a.length := by
        simp only [List.length_cons]
        omega
      rw [List.cons_append, scanFrom_cons, scanFrom_append opening a b, endedIn, openAfter, hn,
        List.append_assoc]

/-- What is open behind the lines is never emitted. -/
theorem blocksOf_endedIn (a : List Text) (n : Int) (state : Option OpenBlock) :
    blocksOf (endedIn opening n state a) = blocksOf (scanFrom opening n state a) := by
  have h := scanFrom_append opening a [] n state
  rw [List.append_nil] at h
  rw [h, blocksOf, blocksOf, List.filterMap_append]
  cases openAfter opening n state a <;> simp [scanFrom, Region.block?]

/-- The blocks before a cut and those behind it. -/
theorem blocksOf_scanFrom_append (a b : List Text) (n : Int) (state : Option OpenBlock) :
    blocksOf (scanFrom opening n state (a ++ b)) = blocksOf (scanFrom opening n state a) ++
      blocksOf (scanFrom opening (n + a.length) (openAfter opening n state a) b) := by
  rw [scanFrom_append, ← blocksOf_endedIn]
  exact List.filterMap_append

end SuiteAudit
