import SuiteAudit.Proofs.Pattern.Scan
import SuiteAudit.Proofs.Source.Regions
import SuiteAudit.Quality.Checks.Structure

/-! # Variables that tests share

A variable that is declared without a value is reported when its line lies in no suite, whatever else
it lies in (`independence_reports`).  A suite closes the braces that it opens, so how deep such a
variable lies is told by the lines outside the suites (`depthAt_eq`).  Of these a test that stands in
no suite is one, so that its own variables are reported (`local_let_is_reported`). -/

namespace SuiteAudit

/-! ### Lines outside -/

variable {inside : Nat → Bool} {n : Nat}

/-- The lines whose number is not inside, when the first of them has the number `n`. -/
def linesOutside (inside : Nat → Bool) (n : Nat) (lines : List Text) : List Text :=
  ((lines.zipIdx n).filter fun p => !inside p.2).map (·.1)

theorem linesOutside_append (a b : List Text) : linesOutside inside n (a ++ b) =
    linesOutside inside n a ++ linesOutside inside (n + a.length) b := by
  rw [linesOutside, List.zipIdx_append, List.filter_append, List.map_append]
  rfl

theorem linesOutside_eq_self {lines : List Text}
    (h : ∀ j, n ≤ j → j < n + lines.length → inside j = false) :
    linesOutside inside n lines = lines := by
  have hall : (lines.zipIdx n).filter (fun p => !inside p.2) = lines.zipIdx n := by
    refine List.filter_eq_self.mpr fun p hp => ?_
    rw [h p.2 (List.le_snd_of_mem_zipIdx hp) (List.snd_lt_add_of_mem_zipIdx hp)]
    rfl
  rw [linesOutside, hall, List.zipIdx_map_fst]

theorem linesOutside_eq_nil {lines : List Text}
    (h : ∀ j, n ≤ j → j < n + lines.length → inside j = true) : linesOutside inside n lines = [] := by
  refine List.map_eq_nil_iff.mpr (List.filter_eq_nil_iff.mpr fun p hp => ?_)
  rw [h p.2 (List.le_snd_of_mem_zipIdx hp) (List.snd_lt_add_of_mem_zipIdx hp)]
  decide

/-- The lines inside are those of the blocks among some regions. -/
def IsInsideOf (regions : List Region) (n : Nat) (inside : Nat → Bool) : Prop :=
  ∀ j, n ≤ j → (inside j = true ↔ ∃ b ∈ blocksOf regions, b.startLine ≤ j ∧ (j : Int) ≤ b.endLine)

namespace Tiles

variable {opening : Opening} {lines : List Text} {regions : List Region} {r : Region}

theorem le_startLine {i : Int} (h : Tiles opening i lines regions) {b : Block}
    (hb : b ∈ blocksOf regions) : i ≤ b.startLine :=
  (h.of_mem (mem_blocksOf.mp hb)).1.start_le

/-- No line before the regions is inside. -/
theorem inside_eq_false {i : Int} (h : Tiles opening i lines regions)
    (hinside : IsInsideOf regions n inside) {j : Nat} (hn : n ≤ j) (hj : (j : Int) < i) :
    inside j = false := by
  rw [← Bool.not_eq_true, hinside j hn]
  rintro ⟨b, hb, hle, -⟩
  exact absurd (h.le_startLine hb) (by omega)

/-- Whether a line of the first region is inside says whether the region is a block. -/
theorem inside_iff (h : Tiles opening (n + r.span.lineCount) lines regions) (hn : r.span.startLine = n)
    (hinside : IsInsideOf (r :: regions) n inside) {j : Nat} (hj : n ≤ j)
    (hlt : j < n + r.span.lineCount) : inside j = true ↔ r.block?.isSome = true := by
  rw [hinside j hj]
  constructor
  · rintro ⟨b, hb, hle, -⟩
    rcases List.mem_cons.mp (mem_blocksOf.mp hb) with rfl | hb
    · rfl
    · exact absurd (h.le_startLine (mem_blocksOf.mpr hb)) (by omega)
  · cases r with
    | block b =>
        have hstart : b.startLine = n := hn
        refine fun _ => ⟨b, mem_blocksOf.mpr List.mem_cons_self, ?_, ?_⟩
        · exact hstart ▸ Int.ofNat_le.mpr hj
        · rw [Region.span] at hlt
          rw [Block.endLine, hstart]
          omega
    | dropped b reason => exact fun h => absurd h Bool.false_ne_true

theorem isInsideOf_tail (hn : r.span.startLine = n) (hinside : IsInsideOf (r :: regions) n inside) :
    IsInsideOf regions (n + r.span.lineCount) inside := by
  intro j hj
  rw [hinside j (by omega)]
  refine ⟨fun ⟨b, hb, hle⟩ => ?_, fun ⟨b, hb, hle⟩ => ?_⟩
  · rcases List.mem_cons.mp (mem_blocksOf.mp hb) with rfl | hb
    · rw [Region.span] at hn hj
      rw [Block.endLine] at hle
      omega
    · exact ⟨b, mem_blocksOf.mpr hb, hle⟩
  · exact ⟨b, mem_blocksOf.mpr (List.mem_cons_of_mem r (mem_blocksOf.mp hb)), hle⟩

/-- The braces of a region are settled when its lines are inside. -/
theorem netBracesIn_region (hends : r.Ends) (hmem : ∀ j, n ≤ j → j < n + r.span.lineCount →
    (inside j = true ↔ r.block?.isSome = true)) :
    netBracesIn (linesOutside inside n r.span.lines) = netBracesIn r.span.lines := by
  cases r with
  | block b =>
      have hnil : linesOutside inside n b.lines = [] :=
        linesOutside_eq_nil fun j hj hlt => (hmem j hj hlt).mpr rfl
      have hbalanced : netBraces b.content = 0 := ((balanced_iff _).mp hends).2
      rw [Region.span, hnil]
      exact hbalanced.symm.trans (netBraces_joinLines b.lines)
  | dropped b reason =>
      have hself : linesOutside inside n b.lines = b.lines :=
        linesOutside_eq_self fun j hj hlt => Bool.not_eq_true _ ▸ fun h => by
          cases (hmem j hj hlt).mp h
      rw [Region.span, hself]

/-- Before a line outside, the blocks settle their braces. -/
theorem netBracesIn_linesOutside {i : Int} (h : Tiles opening i lines regions) :
    ∀ {n : Nat} {before behind : List Text} {line : Text},
      i = n → IsInsideOf regions n inside → lines = before ++ line :: behind →
      inside (n + before.length) = false →
      netBracesIn (linesOutside inside n before) = netBracesIn before := by
  induction h with
  | nil =>
      intro n before behind line hn hinside e hout
      cases before <;> cases e
  | @idle i first rest regions _ ht ih =>
      intro n before behind line hn hinside e hout
      cases before with
      | nil => rfl
      | cons x before =>
          obtain ⟨rfl, erest⟩ := List.cons.inj e
          have hfirst : linesOutside inside n [first] = [first] := linesOutside_eq_self fun j hj hlt =>
            ht.inside_eq_false hinside hj (by rw [List.length_singleton] at hlt; omega)
          have hrest := ih (n := n + 1) (by omega) (fun j hj => hinside j (by omega)) erest
            (by rwa [List.length_cons, Nat.add_comm _ 1, ← Nat.add_assoc] at hout)
          rw [← List.singleton_append, linesOutside_append, hfirst, netBracesIn_append,
            netBracesIn_append]
          exact congrArg _ hrest
  | @region i r rest regions hstart hopens hends _ ht ih =>
      intro n before behind line hn hinside e hout
      subst hn
      have hmem {j : Nat} (hj : n ≤ j) (hlt : j < n + r.span.lineCount) :=
        ht.inside_iff hstart hinside hj hlt
      by_cases hlt : before.length < r.span.lineCount
      · have hnone : ¬ r.block?.isSome = true := by
          rw [← hmem (Nat.le_add_right n _) (Nat.add_lt_add_left hlt n), hout]
          decide
        rw [linesOutside_eq_self fun j hj hj' => ?_]
        rw [← Bool.not_eq_true, hmem hj (by omega)]
        exact hnone
      · obtain ⟨s, rfl, e'⟩ := r.span.exists_behind e (Nat.le_of_not_lt hlt)
        have hrest := ih (n := n + r.span.lineCount) (by omega) (isInsideOf_tail hstart hinside)
          e' (by rwa [List.length_append, ← Nat.add_assoc] at hout)
        rw [linesOutside_append, netBracesIn_append, netBracesIn_append,
          netBracesIn_region hends fun j hj hlt => hmem hj hlt]
        exact congrArg _ hrest

end Tiles

/-! ### Variables that tests share -/

theorem isInsideOf_suites (content : Text) :
    IsInsideOf (suiteRegions content) 1 (Checks.insideSuite (suitesOf content)) := by
  intro j _
  rw [Checks.insideSuite, suitesOf, List.any_map, List.any_eq_true]
  refine exists_congr fun b => and_congr_right fun _ => ?_
  rw [Function.comp_apply, Bool.and_eq_true, decide_eq_true_iff, decide_eq_true_iff]
  rfl

/-- How deep in braces a place of a text lies. -/
def depthAt (content : Text) (offset : Nat) : Int := netBraces (content.take offset)

/-- The suites before a place that is in none of them leave its depth as it is. -/
theorem depthAt_eq {content : Text} {offset : Nat}
    (hout : Checks.insideSuite (suitesOf content) (Text.lineAt content offset) = false) :
    depthAt content offset = netBraces (Text.joinLines (linesOutside
      (Checks.insideSuite (suitesOf content)) 1 (Text.lines (content.take offset)))) := by
  obtain ⟨before, x, y, behind, hlines, -, hcut⟩ :=
    Text.exists_lines_cut (content.take offset) (content.drop offset)
  rw [List.take_append_drop] at hcut
  have hline : Text.lineAt content offset = 1 + before.length := by
    have h := Text.length_lines (content.take offset)
    rw [hlines, List.length_append, List.length_singleton] at h
    rw [Text.lineAt, Text.countChar, ← h, Nat.add_comm]
  rw [hline] at hout
  have hbraces := (tiles_scan .suite 1 (Text.lines content)).netBracesIn_linesOutside (n := 1) rfl
    (isInsideOf_suites content) hcut hout
  have hlast : linesOutside (Checks.insideSuite (suitesOf content)) (1 + before.length) [x] = [x] :=
    linesOutside_eq_self fun j hj hlt => by
      rw [List.length_singleton] at hlt
      rwa [show j = 1 + before.length by omega]
  have hdepth := netBraces_joinLines (Text.lines (content.take offset))
  rw [Text.joinLines_lines] at hdepth
  rw [depthAt, hdepth, netBraces_joinLines, hlines, linesOutside_append, hlast,
    netBracesIn_append, netBracesIn_append, hbraces]

/-- Of entries that grow each is alone with its number. -/
theorem filter_eq_singleton {α : Type} {f : α → Nat} {l : List α}
    (h : l.Pairwise fun a b => f a < f b) {a : α} (ha : a ∈ l) :
    l.filter (fun b => f b = f a) = [a] := by
  obtain ⟨before, behind, rfl⟩ := List.append_of_mem ha
  obtain ⟨-, hbehind, hlt⟩ := List.pairwise_append.mp h
  have hfirst : before.filter (fun b => f b = f a) = [] :=
    List.filter_eq_nil_iff.mpr fun b hb e =>
      Nat.ne_of_lt (hlt b hb a List.mem_cons_self) (of_decide_eq_true e)
  have hlast : behind.filter (fun b => f b = f a) = [] :=
    List.filter_eq_nil_iff.mpr fun b hb e =>
      Nat.ne_of_gt (List.rel_of_pairwise_cons hbehind hb) (of_decide_eq_true e)
  rw [List.filter_append, hfirst, List.filter_cons_of_pos (by simp), hlast]
  rfl

namespace Checks

theorem bareLet_advances : bareLet.Advances := by
  rintro place hit hm
  obtain ⟨s, groups, ht, rfl⟩ := Pattern.matchAt_sound hm
  obtain ⟨edge, _, _, -, ⟨_, rest, _, ⟨-, rfl, -⟩, -, rfl⟩, rfl⟩ := ht
  exact List.append_ne_nil_of_right_ne_nil edge (List.append_ne_nil_of_left_ne_nil (by decide) rest)

/-- The variables that are declared without a value on a line in no suite. -/
def letsOutside (content : Text) : List Hit :=
  (bareLet.findAll content).filter fun hit =>
    !insideSuite (suitesOf content) (Text.lineAt content hit.offset)

theorem pairwise_letsOutside (content : Text) :
    (letsOutside content).Pairwise fun g h => g.offset < h.offset := by
  refine List.Pairwise.filter _ ((Pattern.pairwise_findAll bareLet_advances content).imp_of_mem ?_)
  intro g h hg _ hle
  obtain ⟨a, r, -, -, hm⟩ := Pattern.exists_of_mem_findAll bareLet_advances hg
  have := List.length_pos_iff.mpr (bareLet_advances _ _ hm)
  omega

/-- The variables on lines in no suite are reported, in order and each of them once.  Before such a
variable the braces are those of the lines outside the suites, since a suite closes what it opens. So
it is one of the file exactly when these lines close what they open, and one of a test or a function
that stands in no suite is reported as well. -/
theorem independence_reports (content path : Text) :
    independence content path =
        .ok ((letsOutside content).map fun hit => sharedVariable (Text.lineAt content hit.offset)) ∧
      (letsOutside content).Pairwise (fun g h => g.offset < h.offset) ∧
      (∀ hit ∈ bareLet.findAll content,
        insideSuite (suitesOf content) (Text.lineAt content hit.offset) = false →
          (letsOutside content).filter (fun g => g.offset = hit.offset) = [hit]) ∧
      ∀ hit ∈ letsOutside content, depthAt content hit.offset =
        netBraces (Text.joinLines (linesOutside (insideSuite (suitesOf content)) 1
          (Text.lines (content.take hit.offset)))) := by
  refine ⟨?_, pairwise_letsOutside content, fun hit hmem hout => ?_, fun hit hmem => ?_⟩
  · rw [independence, letsOutside, List.filter_map, List.map_map]
    rfl
  · exact filter_eq_singleton (pairwise_letsOutside content)
      (List.mem_filter.mpr ⟨hmem, by rw [hout]; rfl⟩)
  · exact depthAt_eq ((Bool.not_eq_true' _).mp (List.mem_filter.mp hmem).2)

/-- Two variables of a file, and between them one of a suite. -/
def moduleLets : Text := "let a;\ndescribe('s', () => \x7b\n  let b;\n\x7d);\nlet c;"

/-- Both are reported, and no brace is open before them. -/
theorem module_lets_are_reported :
    independence moduleLets "a.spec.ts" = .ok [sharedVariable 1, sharedVariable 5] ∧
      ∀ hit ∈ letsOutside moduleLets, depthAt moduleLets hit.offset = 0 := by
  obtain ⟨hreport, -, -, hdepth⟩ := independence_reports moduleLets "a.spec.ts"
  have hlines : (letsOutside moduleLets).map (fun hit => Text.lineAt moduleLets hit.offset) =
      [1, 5] := by
    decide +kernel
  have hsettled : ∀ hit ∈ letsOutside moduleLets,
      netBraces (Text.joinLines (linesOutside (insideSuite (suitesOf moduleLets)) 1
        (Text.lines (moduleLets.take hit.offset)))) = 0 := by
    decide +kernel
  have hmap := congrArg (List.map sharedVariable) hlines
  rw [List.map_map] at hmap
  exact ⟨hreport.trans (congrArg Except.ok hmap),
    fun hit hmem => (hdepth hit hmem).trans (hsettled hit hmem)⟩

/-- A variable of a test that stands in no suite. -/
def localLet : Text := "import \x7b test \x7d from 'x';\ntest('a', () => \x7b\n  let x;\n\x7d);"

/-- It is reported, though a brace is open before it. -/
theorem local_let_is_reported :
    independence localLet "a.spec.ts" = .ok [sharedVariable 3] ∧
      (letsOutside localLet).map (fun hit => depthAt localLet hit.offset) = [1] := by
  have hlines : ((bareLet.findAll localLet).map fun hit => Text.lineAt localLet hit.offset).filter
      (fun line => !insideSuite (suitesOf localLet) line) = [3] := by
    decide +kernel
  refine ⟨?_, by decide +kernel⟩
  rw [independence, hlines]
  rfl

end Checks
end SuiteAudit
