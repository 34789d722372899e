import Mathlib.Data.List.Pairwise
import SuiteAudit.Proofs.Source.Regions
import SuiteAudit.Proofs.Text.FreshName
import SuiteAudit.Proofs.Text.Infix

/-! # Scans are exact

A dropped region is told from all others by what is said about it, for this ends with its line
(`Region.startLine_eq_of_warning`).  With the way in which regions lie in the lines this gives all that
a scan promises (`scan_exact`): its blocks are in order and do not overlap, each has just the lines
from its first to its last number and ends as soon as its braces are closed, and a line on which a block
may open lies in just one region, which is emitted or dropped with just one warning. -/

namespace SuiteAudit

namespace Text

theorem not_mem_ofInt {c : Char} (hd : c.isDigit = false) (hm : c ≠ '-') (n : Int) :
    c ∉ ofInt n := by
  have hnat : ∀ k, c ∉ ofNat k := fun k hc => by
    rw [Nat.isDigit_of_mem_toDigits (by decide) (by decide) hc] at hd
    cases hd
  cases n with
  | ofNat k => exact hnat k
  | negSucc k => exact fun hc => (List.mem_cons.mp hc).elim hm (hnat (k + 1))

theorem ofInt_injective : Function.Injective ofInt := by
  have hminus : ∀ k : Nat, '-' ∉ ofNat k := fun k hc => by
    have := Nat.isDigit_of_mem_toDigits (by decide) (by decide) hc
    cases this
  intro m n h
  cases m with
  | ofNat j =>
      cases n with
      | ofNat k => rw [ofNat_injective h]
      | negSucc k =>
          have h : ofNat j = '-' :: ofNat (k + 1) := h
          exact absurd (h ▸ List.mem_cons_self) (hminus j)
  | negSucc j =>
      cases n with
      | ofNat k =>
          have h : '-' :: ofNat (j + 1) = ofNat k := h
          exact absurd (h ▸ List.mem_cons_self) (hminus k)
      | negSucc k =>
          have h := ofNat_injective (List.cons.inj h).2
          rw [Nat.succ.inj h]

/-- What stands behind the last `c` of a text is known by the text. -/
theorem eq_of_append_cons {c : Char} {a b s t : Text} (hs : c ∉ s) (ht : c ∉ t)
    (e : a ++ c :: s = b ++ c :: t) : s = t := by
  obtain ⟨u, -, rfl⟩ := exists_of_append_eq' (a := a ++ [c]) (b := s) hs (by simpa using e)
  obtain ⟨v, -, ev⟩ := exists_of_append_eq' (a := b ++ [c]) (b := u ++ s) ht (by simpa using e.symm)
  have hlen := congrArg List.length ev
  simp only [List.length_append] at hlen
  have hu : u = [] := List.length_eq_zero_iff.mp (by omega)
  rw [hu, List.nil_append]

end Text

/-! ### Warnings -/

namespace Region

/-- The tenth character tells the two reasons apart. -/
theorem warning_ne (k : BlockKind) (s t : Text) :
    ("Dropping " : Text) ++ (k.label ++ s) ≠ "Dropping unterminated " ++ t := by
  intro e
  have h := congrArg (fun t : Text => t[9]?) e
  cases k <;> cases h

/-- What ends with a space and a numeral is known by the number. -/
theorem eq_of_numeral (sep : Text) {s t : Text} {m n : Int}
    (e : s ++ (sep ++ [' ']) ++ Text.ofInt m = t ++ (sep ++ [' ']) ++ Text.ofInt n) : m = n := by
  have hspace : ∀ n : Int, ' ' ∉ Text.ofInt n := Text.not_mem_ofInt (by decide) (by decide)
  simp only [← List.append_assoc] at e
  rw [List.append_assoc _ [' '], List.append_assoc _ [' ']] at e
  exact Text.ofInt_injective (Text.eq_of_append_cons (hspace m) (hspace n) e)

/-- What is said about two dropped regions of one kind tells their first lines apart. -/
theorem startLine_eq_of_warning {r s : Region} {w : Text} (hkind : r.span.kind = s.span.kind)
    (hr : r.warning? = some w) (hs : s.warning? = some w) : r.span.startLine = s.span.startLine := by
  cases r with
  | block b => cases hr
  | dropped b reason =>
      cases s with
      | block c => cases hs
      | dropped c reason' =>
          have e := hr.trans hs.symm
          cases reason <;> cases reason' <;> simp only [warning?, Option.some.injEq] at e
          case overClosed.overClosed =>
            exact eq_of_numeral " at line" (List.append_cancel_right e)
          case unterminated.unterminated => exact eq_of_numeral " opened at line" e
          case overClosed.unterminated =>
            simp only [List.append_assoc] at e
            exact absurd e (warning_ne b.kind _ _)
          case unterminated.overClosed =>
            simp only [List.append_assoc] at e
            exact absurd e.symm (warning_ne c.kind _ _)

end Region

variable {opening : Opening} {n : Int} {lines : List Text} {regions : List Region}

/-- Each dropped region has a warning of its own. -/
theorem Tiles.count_warning (h : Tiles opening n lines regions) {r : Region} (hr : r ∈ regions)
    {w : Text} (hw : r.warning? = some w) : (warningsOf regions).count w = 1 := by
  have hdistinct : (warningsOf regions).Nodup := by
    refine List.Pairwise.filterMap _ ?_ (List.Pairwise.and_mem.mp h.pairwise)
    rintro a b ⟨ha, hb, hab⟩ u hu v hv rfl
    have hopens := (h.of_mem ha).2.1
    have hkind : a.span.kind = b.span.kind :=
      hopens.kind.trans (h.of_mem hb).2.1.kind.symm
    have hstart := Region.startLine_eq_of_warning hkind hu hv
    have hle := hopens.startLine_le
    omega
  have hmem : w ∈ warningsOf regions := List.mem_filterMap.mpr ⟨r, hr, hw⟩
  exact List.count_eq_one_of_mem hdistinct hmem

/-- A line lies in at most one region. -/
theorem Tiles.eq_of_covers (h : Tiles opening n lines regions) {m : Int} {r s : Region}
    (hr : r ∈ regions) (hs : s ∈ regions) (hrm : r.Covers m) (hsm : s.Covers m) : r = s := by
  have hapart : ∀ {a b : Region}, a.span.endLine < b.span.startLine → a.Covers m → b.Covers m →
      a = b := by
    intro a b hab ha hb
    have := ha.2
    have := hb.1
    omega
  have hone := List.Pairwise.forall_of_forall_of_flip
    (R := fun a b : Region => a.Covers m → b.Covers m → a = b) (fun _ _ _ _ => rfl)
    (h.pairwise.imp hapart) (h.pairwise.imp fun hab hb ha => (hapart hab ha hb).symm)
  exact hone hr hs hrm hsm

/-! ### What a scan promises -/

/-- A block that ends as soon as its braces are closed, and that has just the lines from its first to
its last number. -/
structure Block.IsExact (opening : Opening) (n : Int) (lines : List Text) (b : Block) : Prop where
  standsIn : b.StandsIn n lines
  content : Text.lines b.content = b.lines
  opens : b.Opens opening
  balanced : Balanced b.content

/-- A region that is dropped with a warning of its own: at the first line behind which more braces are
closed than opened, or at the end of the lines. -/
structure Block.IsDropped (opening : Opening) (n : Int) (lines warnings : List Text)
    (reason : DropReason) (b : Block) : Prop where
  standsIn : b.StandsIn n lines
  opens : b.Opens opening
  warning : ∃ w, (Region.dropped b reason).warning? = some w ∧ warnings.count w = 1
  ends : match reason with
    | .overClosed => OverClosed b.content ∧
      ∀ ls, ls <+: b.lines → ls ≠ b.lines → ¬ OverClosed (Text.joinLines ls)
    | .unterminated => ¬ Settled b.content ∧ ∃ before, lines = before ++ b.lines

namespace Tiles

/-- The blocks are in order and share no line. -/
theorem pairwise_blocks (h : Tiles opening n lines regions) :
    (blocksOf regions).Pairwise fun b c => b.startLine ≤ b.endLine ∧ b.endLine < c.startLine := by
  refine List.Pairwise.filterMap _ ?_ (List.Pairwise.and_mem.mp h.pairwise)
  rintro r s ⟨hr, -, hrs⟩ b hb c hc
  have hle := (h.of_mem hr).2.1.startLine_le
  cases r with
  | dropped => cases hb
  | block b' =>
      cases s with
      | dropped => cases hc
      | block c' =>
          obtain rfl := Option.some.inj hb
          obtain rfl := Option.some.inj hc
          exact ⟨hle, hrs⟩

theorem isExact {content : Text} (h : Tiles opening n (Text.lines content) regions) {b : Block}
    (hb : b ∈ blocksOf regions) : b.IsExact opening n (Text.lines content) := by
  obtain ⟨hstands, hopens, hbalanced, -⟩ := h.of_mem (mem_blocksOf.mp hb)
  refine ⟨hstands, ?_, hopens, hbalanced⟩
  obtain ⟨before, behind, e, -⟩ := hstands
  have hlines : ∀ l ∈ b.lines, l ∈ Text.lines content := by
    intro l hl
    rw [e]
    exact List.mem_append_left _ (List.mem_append_right _ hl)
  exact Text.lines_joinLines hopens.ne_nil fun l hl =>
    Text.newline_not_mem_of_mem_lines content (hlines l hl)

theorem isDropped (h : Tiles opening n lines regions) {b : Block} {reason : DropReason}
    (hb : .dropped b reason ∈ regions) :
    b.IsDropped opening n lines (warningsOf regions) reason := by
  obtain ⟨hstands, hopens, hends, hlast⟩ := h.of_mem hb
  obtain ⟨w, hw⟩ := Region.exists_warning b reason
  refine ⟨hstands, hopens, ⟨w, hw, h.count_warning hb hw⟩, ?_⟩
  cases reason with
  | overClosed => exact ⟨hends, fun ls hls hne hover => hopens.fewer ls hls hne (Or.inr hover)⟩
  | unterminated => exact ⟨hends, hlast trivial⟩

end Tiles

/-- For any opening call, the blocks of a text are exact and each ends before the next one begins, and
a line on which a block may open lies in just one region, which is a block or is dropped with a warning
of its own. -/
theorem scan_exact (opening : Opening) (n : Int) (content : Text) :
    (blocksOf (scan opening n (Text.lines content))).Pairwise
      (fun b c => b.startLine ≤ b.endLine ∧ b.endLine < c.startLine) ∧
    (∀ b ∈ blocksOf (scan opening n (Text.lines content)),
      b.IsExact opening n (Text.lines content)) ∧
    (∀ before line behind, Text.lines content = before ++ line :: behind → opening.isOn line = true →
      ∃! r, r ∈ scan opening n (Text.lines content) ∧ r.Covers (n + before.length)) ∧
    ∀ b reason, .dropped b reason ∈ scan opening n (Text.lines content) →
      b.IsDropped opening n (Text.lines content)
        (warningsOf (scan opening n (Text.lines content))) reason := by
  have h := tiles_scan opening n (Text.lines content)
  refine ⟨h.pairwise_blocks, fun b hb => h.isExact hb, fun before line behind e hline => ?_,
    fun b reason hb => h.isDropped hb⟩
  obtain ⟨r, hr, hc⟩ := h.exists_covers e hline
  exact ⟨r, ⟨hr, hc⟩, fun s hs => h.eq_of_covers hs.1 hr hs.2 hc⟩

/-- A file with a case, one that is closed twice and one that is not closed. -/
def mixedContent : Text :=
  "test('a', () => \x7b\n\x7d);\nit('b', () => \x7b\n\x7d\x7d);\nit('c', () => \x7b"

theorem mixed_scan_exact :
    (scan .case 1 (Text.lines mixedContent)).map (fun r => (r.span.startLine, r.span.endLine)) =
      [(1, 2), (3, 4), (5, 5)] ∧
    (warningsOf (scan .case 1 (Text.lines mixedContent))).length = 2 ∧
    (∃! r, r ∈ scan .case 1 (Text.lines mixedContent) ∧ r.Covers 3) ∧
    ∀ b ∈ casesOf mixedContent, b.IsExact .case 1 (Text.lines mixedContent) := by
  obtain ⟨-, hblocks, hlines, -⟩ := scan_exact .case 1 mixedContent
  have hthird := hlines ["test('a', () => \x7b", "\x7d);"] "it('b', () => \x7b"
    ["\x7d\x7d);", "it('c', () => \x7b"] (by decide +kernel) (by decide +kernel)
  exact ⟨by decide +kernel, by decide +kernel, hthird, hblocks⟩

end SuiteAudit
