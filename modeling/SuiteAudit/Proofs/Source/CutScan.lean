import SuiteAudit.Proofs.Source.Regions

/-! # A scan that is cut

A scan that is cut goes on behind the cut with the region that is open there.  So the blocks between two
cuts are those of a scan of the lines between them, if nothing is open at the first cut
(`blocksOf_scan_middle`), and a line lies in a region exactly when one may open on it or is open before
it (`exists_covers_iff`).

The cases of a suite come from a scan of its lines alone, which begins with nothing open and stops at
the end of the suite.  What it finds lies within the suite, and where no case is open behind the first
line of the suite it finds just what a scan of the whole file finds there (`cases_of_suite`): a scan
that is cut finds the blocks before the cut and then those behind it. -/

namespace SuiteAudit

variable {opening : Opening}

/-! ### What is open at a cut -/

/-- Behind some lines a region is open only if the scan tracks it. -/
theorem isOpenAt_openAfter (opening : Opening) :
    ∀ (a : List Text) (n : Int) (state : Option OpenBlock),
      (∀ o, state = some o → o.IsOpenAt opening n) →
      ∀ o, openAfter opening n state a = some o → o.IsOpenAt opening (n + a.length)
  | [], n, state, h => by simpa [openAfter] using h
  | line :: a, n, state, h => by
      have hn : n + (line :: a).length = n + 1 + a.length := by
        simp only [List.length_cons]
        omega
      rw [openAfter, hn]
      refine isOpenAt_openAfter opening a (n + 1) _ fun o ho => ?_
      obtain ⟨hw, hs⟩ := Option.filter_eq_some_iff.mp ho
      obtain ⟨htracks, -, -, hnext⟩ := with?_spec h hw
      exact ⟨htracks, htracks.settle?.2 (Option.isNone_iff_eq_none.mp hs), hnext⟩

/-! ### Blocks at a cut -/

/-- A scan from the line `n` on finds no block that ends before it. -/
theorem le_endLine_of_mem_blocksOf (lines : List Text) (n : Int) (state : Option OpenBlock) :
    (∀ o, state = some o → o.IsOpenAt opening n) →
      ∀ b ∈ blocksOf (scanFrom opening n state lines), n ≤ b.endLine := by
  refine scan_cases opening
    (motive := fun n state _ regions => (∀ o, state = some o → o.IsOpenAt opening n) →
      ∀ b ∈ blocksOf regions, n ≤ b.endLine)
    ?nil ?unterminated ?idle ?ends ?goes lines n state
  case nil => exact fun n _ b hb => by cases hb
  case unterminated => exact fun n o _ b hb => by cases hb
  case idle =>
    intro n line rest regions _ ih _ b hb
    have := ih (fun o h => by cases h) b hb
    omega
  case ends =>
    intro n state line rest o region regions hw hs ih hopen b hb
    obtain ⟨htracks, -, -, hnext⟩ := with?_spec hopen hw
    obtain ⟨hspan, -⟩ := htracks.settle?.1 region hs
    rcases List.mem_cons.mp (mem_blocksOf.mp hb) with rfl | hb
    · have hspan : b = o.span := hspan
      rw [hspan, Block.endLine]
      omega
    · have := ih (fun o h => by cases h) b (mem_blocksOf.mpr hb)
      omega
  case goes =>
    intro n state line rest o regions hw hs ih hopen b hb
    obtain ⟨htracks, -, -, hnext⟩ := with?_spec hopen hw
    have := ih (fun o' h => by
      obtain rfl := Option.some.inj h
      exact ⟨htracks, htracks.settle?.2 hs, hnext⟩) b hb
    omega

/-- When a file is cut before and behind some lines and nothing is open at the first cut, the blocks
of these lines are those of the file that begin and end within them. -/
theorem blocksOf_scan_middle {a b : List Text} {n : Int} (h : openAfter opening n none a = none)
    (c : List Text) : (blocksOf (scan opening n (a ++ (b ++ c)))).filter (fun d =>
        n + a.length ≤ d.startLine ∧ d.endLine < n + a.length + b.length) =
      blocksOf (scan opening (n + a.length) b) := by
  have hcut : blocksOf (scan opening n (a ++ (b ++ c))) = _ :=
    blocksOf_scanFrom_append a (b ++ c) n none
  rw [h, blocksOf_scanFrom_append b c] at hcut
  have hbefore : (blocksOf (scanFrom opening n none a)).filter (fun d =>
      n + a.length ≤ d.startLine ∧ d.endLine < n + a.length + b.length) = [] := by
    rw [List.filter_eq_nil_iff]
    intro d hd hin
    obtain ⟨hstart, -⟩ := of_decide_eq_true hin
    obtain ⟨hstands, hopens, -⟩ := (tiles_scan opening n a).of_mem (mem_blocksOf.mp hd)
    have hlt : d.endLine < n + a.length := hstands.endLine_lt
    have hle : d.startLine ≤ d.endLine := hopens.startLine_le
    omega
  have hwithin : (blocksOf (scanFrom opening (n + a.length) none b)).filter (fun d =>
      n + a.length ≤ d.startLine ∧ d.endLine < n + a.length + b.length) =
        blocksOf (scanFrom opening (n + a.length) none b) := by
    rw [List.filter_eq_self]
    intro d hd
    obtain ⟨hstands, -⟩ := (tiles_scan opening (n + a.length) b).of_mem (mem_blocksOf.mp hd)
    exact decide_eq_true ⟨hstands.start_le, hstands.endLine_lt⟩
  have hopen := isOpenAt_openAfter opening b (n + a.length) none fun o h => by cases h
  have hbehind := le_endLine_of_mem_blocksOf c _ _ hopen
  rw [hcut, List.filter_append, List.filter_append, hbefore, hwithin, List.filter_eq_nil_iff.mpr,
    List.nil_append, List.append_nil]
  · rfl
  · intro d hd hin
    obtain ⟨-, hend⟩ := of_decide_eq_true hin
    have := hbehind d hd
    omega

/-! ### The line behind a cut -/

/-- What is open ends up in a region. -/
theorem exists_of_open (opening : Opening) (lines : List Text) (n : Int) (state : Option OpenBlock) :
    ∀ o, state = some o → ∃ r ∈ scanFrom opening n state lines,
      r.span.startLine = o.span.startLine ∧ o.span.endLine ≤ r.span.endLine := by
  refine scan_cases opening
    (motive := fun _ state _ regions => ∀ o, state = some o → ∃ r ∈ regions,
      r.span.startLine = o.span.startLine ∧ o.span.endLine ≤ r.span.endLine)
    ?nil ?unterminated ?idle ?ends ?goes lines n state
  case nil => exact fun n o h => by cases h
  case unterminated =>
    intro n o o' h
    obtain rfl := Option.some.inj h
    exact ⟨_, List.mem_cons_self, rfl, Int.le_refl _⟩
  case idle => exact fun n line rest regions _ _ o h => by cases h
  case ends =>
    intro n state line rest o' region regions hw hs _ o h
    subst h
    obtain rfl := Option.some.inj hw
    have hend := endLine_add o line
    refine ⟨region, List.mem_cons_self, ?_, ?_⟩
    · rw [span_of_settle? hs]
      rfl
    · rw [span_of_settle? hs]
      omega
  case goes =>
    intro n state line rest o' regions hw _ ih o h
    subst h
    obtain rfl := Option.some.inj hw
    have hend := endLine_add o line
    obtain ⟨r, hr, hstart, hle⟩ := ih (o.add line) rfl
    exact ⟨r, hr, hstart, by omega⟩

/-- The line behind a cut at which a region is open lies in it. -/
theorem exists_covers_of_open {m : Int} {o : OpenBlock} (ho : o.IsOpenAt opening m) (line : Text)
    (behind : List Text) :
    ∃ r ∈ scanFrom opening m (some o) (line :: behind), r.Covers m := by
  have hnext := ho.next
  have hpos := ho.tracks.opens.lineCount_pos
  have hend : (o.add line).span.endLine = m := by
    rw [endLine_add, Block.endLine]
    omega
  have hstart : (o.add line).span.startLine = o.span.startLine := rfl
  rw [scanFrom_cons]
  simp only [OpenBlock.with?, Option.bind_some]
  cases hs : (o.add line).settle? with
  | some region =>
      refine ⟨region, by simp, ?_⟩
      unfold Region.Covers
      rw [span_of_settle? hs]
      omega
  | none =>
      obtain ⟨r, hr, hrstart, hle⟩ := exists_of_open opening behind (m + 1) (some (o.add line)) _ rfl
      refine ⟨r, by simpa [hs, Option.filter_some] using hr, ?_⟩
      unfold Region.Covers
      omega

/-- The line before a cut at which a region is open lies in it. -/
theorem exists_covers_before {n : Int} {before : List Text} {o : OpenBlock}
    (ho : openAfter opening n none before = some o) (behind : List Text) :
    ∃ r ∈ scan opening n (before ++ behind), r.Covers (n + before.length - 1) := by
  have hat := isOpenAt_openAfter opening before n none (fun o h => by cases h) o ho
  have hnext := hat.next
  have hpos := hat.tracks.opens.lineCount_pos
  have hend : o.span.endLine = n + before.length - 1 := by
    rw [Block.endLine]
    omega
  obtain ⟨r, hr, hstart, hle⟩ :=
    exists_of_open opening behind (n + before.length) (some o) o rfl
  have happend : scan opening n (before ++ behind) = _ :=
    scanFrom_append opening before behind n none
  refine ⟨r, ?_, by omega, by omega⟩
  rw [happend, ho]
  exact List.mem_append_right _ hr

/-- A line on which nothing opens lies in no region if nothing is open before it: the regions have
ended before it or begin behind it. -/
theorem not_covers_of_idle {n : Int} {before : List Text}
    (hidle : openAfter opening n none before = none) {line : Text}
    (hline : opening.onLine? line = none) (behind : List Text) :
    ∀ r ∈ scan opening n (before ++ line :: behind), ¬ r.Covers (n + before.length) := by
  rintro r hr ⟨hstart, hend⟩
  have hbefore : scan opening n before = endedIn opening n none before := by
    have := scanFrom_append opening before [] n none
    rwa [hidle, scanFrom, List.append_nil, List.append_nil] at this
  have happend : scan opening n (before ++ line :: behind) = _ :=
    scanFrom_append opening before (line :: behind) n none
  rw [happend, ← hbefore, hidle, scanFrom_cons] at hr
  simp only [OpenBlock.with?, hline, Option.map_none, Option.bind_none, Option.toList_none,
    Option.filter_none, List.nil_append] at hr
  rcases List.mem_append.mp hr with hr | hr
  · have := ((tiles_scan opening n before).of_mem hr).1.endLine_lt
    omega
  · have := ((tiles_scan opening _ behind).of_mem hr).1.start_le
    omega

/-- A line lies in a region exactly when one may open on it or is open before it. -/
theorem exists_covers_iff (opening : Opening) (n : Int) (before behind : List Text) (line : Text) :
    (∃ r ∈ scan opening n (before ++ line :: behind), r.Covers (n + before.length)) ↔
      opening.isOn line = true ∨ openAfter opening n none before ≠ none := by
  constructor
  · rintro ⟨r, hr, hc⟩
    by_cases hidle : openAfter opening n none before = none
    · refine Or.inl (Opening.isOn_iff.mpr fun hline => ?_)
      exact not_covers_of_idle hidle hline behind r hr hc
    · exact Or.inr hidle
  · rintro (hon | hopen)
    · exact (tiles_scan opening n _).exists_covers rfl hon
    · obtain ⟨o, ho⟩ := Option.ne_none_iff_exists'.mp hopen
      have hat := isOpenAt_openAfter opening before n none (fun o h => by cases h) o ho
      obtain ⟨r, hr, hc⟩ := exists_covers_of_open hat line behind
      have happend : scan opening n (before ++ line :: behind) = _ :=
        scanFrom_append opening before (line :: behind) n none
      refine ⟨r, ?_, hc⟩
      rw [happend, ho]
      exact List.mem_append_right _ hr

/-! ### The cases of a suite -/

/-- A suite cuts its file behind its first line and behind its last one, and its cases are looked for
in the lines between the cuts. -/
theorem exists_cut_of_mem_suitesOf {content : Text} {s : Suite} (hs : s ∈ suitesOf content) :
    ∃ upto inner behind, Text.lines content = upto ++ (inner ++ behind) ∧
      s.block.startLine = upto.length ∧ s.block.endLine = s.block.startLine + inner.length ∧
      s.cases = blocksOf (scan .case (1 + upto.length) inner) := by
  obtain ⟨b, hb, rfl⟩ := List.mem_map.mp hs
  obtain ⟨hstands, hopens, -⟩ :=
    (tiles_scan .suite 1 (Text.lines content)).of_mem (mem_blocksOf.mp hb)
  obtain ⟨before, behind, hlines, hstart⟩ := hstands
  obtain ⟨first, inner, hfirst, -⟩ := hopens.first
  simp only [Region.span] at hlines hstart hfirst
  have hupto : b.startLine = (before ++ [first]).length := by
    rw [hstart, List.length_append, List.length_singleton]
    omega
  refine ⟨before ++ [first], inner, behind, ?_, hupto, ?_, ?_⟩
  · rw [hlines, hfirst]
    simp
  · show b.endLine = b.startLine + inner.length
    rw [Block.endLine, Block.lineCount, hfirst, List.length_cons]
    omega
  · have hnext : b.startLine + 1 = 1 + (before ++ [first]).length := by omega
    rw [Suite.cases, Suite.ofBlock, hfirst, hnext]
    rfl

theorem within_of_mem_cases {content : Text} {s : Suite} (hs : s ∈ suitesOf content) {c : Block}
    (hc : c ∈ s.cases) : c.StandsIn 1 (Text.lines content) ∧ s.block.startLine < c.startLine ∧
      c.startLine ≤ c.endLine ∧ c.endLine ≤ s.block.endLine := by
  obtain ⟨upto, inner, behind, hlines, hstart, hend, hcases⟩ := exists_cut_of_mem_suitesOf hs
  rw [hcases] at hc
  obtain ⟨hstands, hopens, -⟩ :=
    (tiles_scan .case (1 + upto.length) inner).of_mem (mem_blocksOf.mp hc)
  have hlow : 1 + (upto.length : Int) ≤ c.startLine := hstands.start_le
  have hhigh : c.endLine < 1 + upto.length + inner.length := hstands.endLine_lt
  refine ⟨?_, by omega, hopens.startLine_le, by omega⟩
  rw [hlines]
  exact (hstands.append_right behind).append upto

/-- Each case of a suite has just the lines of the file from its first to its last number and lies
within the suite, behind its first line.  Where the scan of the file has no case open behind that line,
they are all cases of the file that begin behind it and end with the suite or before. -/
theorem cases_of_suite {content : Text} {s : Suite} (hs : s ∈ suitesOf content) :
    (∀ c ∈ s.cases, c.StandsIn 1 (Text.lines content) ∧ s.block.startLine < c.startLine ∧
      c.startLine ≤ c.endLine ∧ c.endLine ≤ s.block.endLine) ∧
    (openAfter .case 1 none ((Text.lines content).take s.block.startLine.toNat) = none →
      s.cases = (casesOf content).filter fun c =>
        s.block.startLine < c.startLine ∧ c.endLine ≤ s.block.endLine) := by
  refine ⟨fun c hc => within_of_mem_cases hs hc, fun hidle => ?_⟩
  · obtain ⟨upto, inner, behind, hlines, hstart, hend, hcases⟩ := exists_cut_of_mem_suitesOf hs
    have htake : (Text.lines content).take s.block.startLine.toNat = upto := by
      rw [hstart, Int.toNat_natCast, hlines, List.take_left]
    rw [htake] at hidle
    have hmiddle := blocksOf_scan_middle (b := inner) hidle behind
    rw [← hlines] at hmiddle
    rw [hcases, ← hmiddle]
    refine List.filter_congr fun c _ => ?_
    rw [decide_eq_decide, hend, hstart]
    omega

/-- A suite with two cases, and a case behind it. -/
def nestedContent : Text := "describe('A', () => \x7b\n  test('a', () => \x7b\n  \x7d);\n" ++
  "  it('b', () => \x7b\x7d);\n\x7d);\ntest('c', () => \x7b\n\x7d);"

theorem nested_cases_of_suite : ∃ s ∈ suitesOf nestedContent, s.cases.length = 2 ∧
    (casesOf nestedContent).length = 3 ∧
    (∀ c ∈ s.cases, s.block.startLine < c.startLine ∧ c.endLine ≤ s.block.endLine) ∧
    s.cases = (casesOf nestedContent).filter fun c =>
      s.block.startLine < c.startLine ∧ c.endLine ≤ s.block.endLine := by
  have h : (suitesOf nestedContent).any (fun s => s.cases.length = 2 ∧
      (openAfter .case 1 none ((Text.lines nestedContent).take s.block.startLine.toNat)).isNone) =
        true := by
    decide +kernel
  obtain ⟨s, hs, h⟩ := List.any_eq_true.mp h
  obtain ⟨htwo, hidle⟩ := of_decide_eq_true h
  obtain ⟨hwithin, hsame⟩ := cases_of_suite hs
  refine ⟨s, hs, htwo, by decide +kernel, fun c hc => ?_, hsame (Option.isNone_iff_eq_none.mp hidle)⟩
  obtain ⟨-, hstart, -, hend⟩ := hwithin c hc
  exact ⟨hstart, hend⟩

end SuiteAudit
