import SuiteAudit.Proofs.Source.Scanning
import SuiteAudit.Proofs.Text.Lines

/-! # The regions of a scan

`Tiles opening n lines regions` says without a scan how regions lie in some lines, the first of which
has the number `n`: a region begins at the first line on which one opens, it ends with the first line
behind which its braces are settled or with the last line, and the next one is looked for behind it.
A scan finds these regions (`tiles_scan`), for what it keeps about an open region is what the braces of
its lines say (`OpenBlock.Tracks`).  Where the regions lie is then read off `Tiles` alone. -/

namespace SuiteAudit

/-! ### Braces -/

/-- A text holds an opening brace and as many closing ones. -/
def Balanced (t : Text) : Prop := '\x7b' ∈ t ∧ t.count '\x7b' = t.count '\x7d'

/-- A text holds more closing braces than opening ones. -/
def OverClosed (t : Text) : Prop := t.count '\x7b' < t.count '\x7d'

instance (t : Text) : Decidable (Balanced t) := inferInstanceAs (Decidable (_ ∧ _))

instance (t : Text) : Decidable (OverClosed t) := inferInstanceAs (Decidable (_ < _))

/-- A region may end with a text. -/
def Settled (t : Text) : Prop := Balanced t ∨ OverClosed t

theorem overClosed_iff (t : Text) : OverClosed t ↔ netBraces t < 0 := by
  unfold OverClosed netBraces Text.countChar
  omega

theorem balanced_iff (t : Text) : Balanced t ↔ '\x7b' ∈ t ∧ netBraces t = 0 := by
  have h : t.count '\x7b' = t.count '\x7d' ↔ netBraces t = 0 := by
    unfold netBraces Text.countChar
    omega
  rw [Balanced, h]

theorem not_settled_nil : ¬ Settled [] := by
  simp [Settled, Balanced, OverClosed]

theorem netBraces_joinLines_append {a b : List Text} (ha : a ≠ []) (hb : b ≠ []) :
    netBraces (Text.joinLines (a ++ b)) =
      netBraces (Text.joinLines a) + netBraces (Text.joinLines b) := by
  rw [Text.joinLines_append ha hb]
  simp [netBraces, Text.countChar]
  omega

/-- Opening minus closing braces of some lines. -/
def netBracesIn : List Text → Int
  | [] => 0
  | line :: rest => netBraces line + netBracesIn rest

theorem netBracesIn_append (a b : List Text) :
    netBracesIn (a ++ b) = netBracesIn a + netBracesIn b := by
  induction a with
  | nil => simp [netBracesIn]
  | cons line a ih =>
      rw [List.cons_append, netBracesIn, netBracesIn, ih, Int.add_assoc]

/-- The line feeds between the lines are no braces. -/
theorem netBraces_joinLines : ∀ lines : List Text,
    netBraces (Text.joinLines lines) = netBracesIn lines
  | [] => rfl
  | [line] => by rw [Text.joinLines_singleton, netBracesIn, netBracesIn, Int.add_zero]
  | line :: next :: rest => by
      have hsplit :=
        netBraces_joinLines_append (List.cons_ne_nil line []) (List.cons_ne_nil next rest)
      rw [List.singleton_append, Text.joinLines_singleton,
        netBraces_joinLines (next :: rest)] at hsplit
      exact hsplit

theorem mem_joinLines_append {a b : List Text} (ha : a ≠ []) (hb : b ≠ []) :
    '\x7b' ∈ Text.joinLines (a ++ b) ↔ '\x7b' ∈ Text.joinLines a ∨ '\x7b' ∈ Text.joinLines b := by
  rw [Text.joinLines_append ha hb]
  simp

/-! ### Where a block stands -/

namespace Block

/-- The block has just the lines from its first to its last number, when the first of `lines` has the
number `n`. -/
def StandsIn (n : Int) (lines : List Text) (b : Block) : Prop :=
  ∃ before behind, lines = before ++ b.lines ++ behind ∧ b.startLine = n + before.length

/-- The first line of a block opens it, and no fewer lines settle its braces. -/
structure Opens (opening : Opening) (b : Block) : Prop where
  kind : b.kind = opening.kind
  first : ∃ line rest, b.lines = line :: rest ∧ opening.onLine? line = some b.name
  fewer : ∀ ls, ls <+: b.lines → ls ≠ b.lines → ¬ Settled (Text.joinLines ls)

theorem Opens.ne_nil {b : Block} {opening : Opening} (h : b.Opens opening) : b.lines ≠ [] := by
  obtain ⟨line, rest, e, -⟩ := h.first
  rw [e]
  exact List.cons_ne_nil line rest

theorem Opens.lineCount_pos {b : Block} {opening : Opening} (h : b.Opens opening) :
    0 < b.lineCount :=
  List.length_pos_iff.mpr h.ne_nil

/-- A line that stands further down than the lines of a block stands behind them. -/
theorem exists_behind (b : Block) {rest before behind : List Text} {line : Text}
    (e : b.lines ++ rest = before ++ line :: behind) (hle : b.lineCount ≤ before.length) :
    ∃ s, before = b.lines ++ s ∧ rest = s ++ line :: behind := by
  obtain ⟨s, rfl⟩ : b.lines <+: before :=
    List.prefix_of_prefix_length_le ⟨rest, rfl⟩ ⟨line :: behind, e.symm⟩ hle
  rw [List.append_assoc] at e
  exact ⟨s, rfl, List.append_cancel_left e⟩

end Block

/-- The braces of a region are those that its end asks for. -/
def Region.Ends : Region → Prop
  | .block b => Balanced b.content
  | .dropped b .overClosed => OverClosed b.content
  | .dropped b .unterminated => ¬ Settled b.content

def Region.IsUnterminated : Region → Prop
  | .dropped _ .unterminated => True
  | _ => False

/-- How regions lie in some lines, the first of which has the number `n`. -/
inductive Tiles (opening : Opening) : Int → List Text → List Region → Prop
  | nil {n : Int} : Tiles opening n [] []
  | idle {n : Int} {line : Text} {rest : List Text} {regions : List Region} :
      opening.onLine? line = none → Tiles opening (n + 1) rest regions →
      Tiles opening n (line :: rest) regions
  | region {n : Int} {r : Region} {rest : List Text} {regions : List Region} :
      r.span.startLine = n → r.span.Opens opening → r.Ends → (r.IsUnterminated → rest = []) →
      Tiles opening (n + r.span.lineCount) rest regions →
      Tiles opening n (r.span.lines ++ rest) (r :: regions)

/-! ### What is open during a scan -/

variable {opening : Opening}

/-- What a scan keeps about a region is what the braces of its lines say. -/
structure OpenBlock.Tracks (opening : Opening) (o : OpenBlock) : Prop where
  opens : o.span.Opens opening
  depth : o.depth = netBraces o.span.content
  seenBrace : o.seenBrace = true ↔ '\x7b' ∈ o.span.content

theorem tracks_start {line name : Text} (h : opening.onLine? line = some name) (n : Int) :
    (OpenBlock.start name opening.kind n line).Tracks opening where
  opens := {
    kind := rfl
    first := ⟨line, [], rfl, h⟩
    fewer := fun ls hls hne => by
      rcases List.prefix_cons_iff.mp hls with rfl | ⟨ls', rfl, hls'⟩
      · exact not_settled_nil
      · rw [List.prefix_nil.mp hls'] at hne
        exact absurd rfl hne }
  depth := by
    simp [OpenBlock.start, Block.content, Text.joinLines_singleton]
  seenBrace := by
    simp [OpenBlock.start, Block.content, Text.joinLines_singleton]

/-- A region that is not settled goes on with the next line. -/
theorem OpenBlock.Tracks.add {o : OpenBlock} (h : o.Tracks opening) (ho : ¬ Settled o.span.content)
    (line : Text) : (o.add line).Tracks opening := by
  have hne := h.opens.ne_nil
  obtain ⟨first, rest, hlines, hname⟩ := h.opens.first
  refine ⟨⟨h.opens.kind, ⟨first, rest ++ [line], ?_, hname⟩, fun ls hls hls' => ?_⟩, ?_, ?_⟩
  · simp [OpenBlock.add, hlines]
  · have hls : ls <+: o.span.lines ++ [line] := hls
    rcases List.prefix_concat_iff.mp hls with rfl | hls
    · exact absurd rfl hls'
    · by_cases he : ls = o.span.lines
      · rw [he]
        exact ho
      · exact h.opens.fewer ls hls he
  · have := netBraces_joinLines_append hne (List.cons_ne_nil line [])
    simp [OpenBlock.add, Block.content, h.depth, this, Text.joinLines_singleton]
  · have := mem_joinLines_append hne (List.cons_ne_nil line [])
    simp [OpenBlock.add, Block.content, h.seenBrace, this, Text.joinLines_singleton]

/-- A region ends with the first line that settles its braces. -/
theorem OpenBlock.Tracks.settle? {o : OpenBlock} (h : o.Tracks opening) :
    (∀ r, o.settle? = some r → r.span = o.span ∧ r.Ends ∧ ¬ r.IsUnterminated) ∧
      (o.settle? = none → ¬ Settled o.span.content) := by
  have hover := overClosed_iff o.span.content
  have hbalanced := balanced_iff o.span.content
  rw [← h.depth] at hover hbalanced
  rw [← h.seenBrace] at hbalanced
  unfold OpenBlock.settle? Settled
  by_cases hneg : o.depth < 0
  · refine ⟨fun r hr => ?_, fun hn => ?_⟩
    · rw [if_pos hneg] at hr
      rw [← Option.some.inj hr]
      exact ⟨rfl, hover.mpr hneg, id⟩
    · rw [if_pos hneg] at hn
      cases hn
  · by_cases hzero : o.seenBrace = true ∧ o.depth = 0
    · refine ⟨fun r hr => ?_, fun hn => ?_⟩
      · rw [if_neg hneg, if_pos hzero] at hr
        rw [← Option.some.inj hr]
        exact ⟨rfl, hbalanced.mpr hzero, id⟩
      · rw [if_neg hneg, if_pos hzero] at hn
        cases hn
    · refine ⟨fun r hr => ?_, fun _ => ?_⟩
      · rw [if_neg hneg, if_neg hzero] at hr
        cases hr
      · rw [hbalanced, hover, not_or]
        exact ⟨hzero, hneg⟩

/-- A region is open before the line `n`: it is tracked, not settled, and ends before that line. -/
structure OpenBlock.IsOpenAt (opening : Opening) (n : Int) (o : OpenBlock) : Prop where
  tracks : o.Tracks opening
  open' : ¬ Settled o.span.content
  next : o.span.startLine + o.span.lineCount = n

/-- The first line of what is open, or the line `n` itself. -/
def startOf (n : Int) (state : Option OpenBlock) : Int := (state.map (·.span.startLine)).getD n

/-- The lines of what is open. -/
def linesOf (state : Option OpenBlock) : List Text := (state.map (·.span.lines)).getD []

/-- The step of a scan: the region that a line belongs to has the lines of the open one and this
line. -/
theorem with?_spec {n : Int} {state : Option OpenBlock} {line : Text} {o : OpenBlock}
    (hstate : ∀ o', state = some o' → o'.IsOpenAt opening n)
    (h : OpenBlock.with? opening n state line = some o) :
    o.Tracks opening ∧ o.span.lines = linesOf state ++ [line] ∧
      o.span.startLine = startOf n state ∧ o.span.startLine + o.span.lineCount = n + 1 := by
  cases state with
  | none =>
      obtain ⟨name, hname, rfl⟩ := Option.map_eq_some_iff.mp h
      exact ⟨tracks_start hname n, rfl, rfl, rfl⟩
  | some o' =>
      obtain rfl := Option.some.inj h
      have ho := hstate o' rfl
      refine ⟨ho.tracks.add ho.open' line, rfl, rfl, ?_⟩
      have := ho.next
      simp [OpenBlock.add, Block.lineCount] at this ⊢
      omega

/-- A scan that goes on with an open region finds the regions of its lines and the others. -/
theorem tiles_scanFrom (lines : List Text) (n : Int) (state : Option OpenBlock) :
    (∀ o, state = some o → o.IsOpenAt opening n) →
      Tiles opening (startOf n state) (linesOf state ++ lines) (scanFrom opening n state lines) := by
  refine scan_cases opening
    (motive := fun n state lines regions => (∀ o, state = some o → o.IsOpenAt opening n) →
      Tiles opening (startOf n state) (linesOf state ++ lines) regions)
    ?nil ?unterminated ?idle ?ends ?goes lines n state
  case nil => exact fun n _ => .nil
  case unterminated =>
    intro n o hopen
    have ho := hopen o rfl
    exact .region (r := .dropped o.span .unterminated) rfl ho.tracks.opens ho.open' (fun _ => rfl) .nil
  case idle => exact fun n line rest regions hline ih _ => .idle hline (ih fun o h => by cases h)
  case ends =>
    intro n state line rest o region regions hw hs ih hopen
    obtain ⟨htracks, hlines, hstart, hnext⟩ := with?_spec hopen hw
    obtain ⟨hspan, hends, hterminated⟩ := htracks.settle?.1 region hs
    have ht := ih fun o h => by cases h
    have hopens := htracks.opens
    rw [← hspan] at hlines hstart hnext hopens
    have e : linesOf state ++ line :: rest = region.span.lines ++ rest := by
      rw [hlines, List.append_assoc]
      rfl
    rw [e]
    refine .region hstart hopens hends (fun h => absurd h hterminated) ?_
    rwa [← hstart, hnext]
  case goes =>
    intro n state line rest o regions hw hs ih hopen
    obtain ⟨htracks, hlines, hstart, hnext⟩ := with?_spec hopen hw
    have ht := ih fun o' h => by
      obtain rfl := Option.some.inj h
      exact ⟨htracks, htracks.settle?.2 hs, hnext⟩
    have e : linesOf state ++ line :: rest = linesOf (some o) ++ rest := by
      rw [show linesOf (some o) = o.span.lines from rfl, hlines, List.append_assoc]
      rfl
    rw [e, ← hstart]
    exact ht

/-- A scan finds the regions of the lines. -/
theorem tiles_scan (opening : Opening) (n : Int) (lines : List Text) :
    Tiles opening n lines (scan opening n lines) :=
  tiles_scanFrom lines n none fun o h => by cases h

/-! ### Where the regions lie -/

theorem Opening.isOn_iff {line : Text} : opening.isOn line = true ↔ opening.onLine? line ≠ none := by
  rw [Opening.isOn, Opening.onLine?, Pattern.occursIn, Option.isSome_iff_ne_none]
  simp

namespace Block.StandsIn

variable {b : Block} {n : Int} {lines : List Text}

theorem start_le (h : b.StandsIn n lines) : n ≤ b.startLine := by
  obtain ⟨before, behind, -, e⟩ := h
  omega

theorem endLine_lt (h : b.StandsIn n lines) : b.endLine < n + lines.length := by
  obtain ⟨before, behind, rfl, e⟩ := h
  have hlen : (before ++ b.lines ++ behind).length = before.length + b.lineCount + behind.length := by
    simp [Block.lineCount]
    omega
  rw [Block.endLine, hlen]
  omega

/-- A block that stands in lines stands in them when others come before. -/
theorem append (pre : List Text) (h : b.StandsIn (n + pre.length) lines) :
    b.StandsIn n (pre ++ lines) := by
  obtain ⟨before, behind, rfl, e⟩ := h
  refine ⟨pre ++ before, behind, by simp, ?_⟩
  rw [e, List.length_append]
  omega

/-- It stands in them as well when others come behind. -/
theorem append_right (post : List Text) (h : b.StandsIn n lines) : b.StandsIn n (lines ++ post) := by
  obtain ⟨before, behind, rfl, e⟩ := h
  exact ⟨before, behind ++ post, by simp, e⟩

end Block.StandsIn

theorem Block.Opens.startLine_le {b : Block} (h : b.Opens opening) : b.startLine ≤ b.endLine := by
  have := h.lineCount_pos
  rw [Block.endLine]
  omega

theorem mem_blocksOf {b : Block} {regions : List Region} :
    b ∈ blocksOf regions ↔ .block b ∈ regions := by
  constructor
  · intro h
    obtain ⟨r, hr, hb⟩ := List.mem_filterMap.mp h
    cases r with
    | block c => rwa [← Option.some.inj hb]
    | dropped => cases hb
  · exact fun h => List.mem_filterMap.mpr ⟨_, h, rfl⟩

namespace Tiles

variable {n : Int} {lines : List Text} {regions : List Region}

/-- What holds of each region. -/
theorem of_mem (h : Tiles opening n lines regions) {r : Region} (hr : r ∈ regions) :
    r.span.StandsIn n lines ∧ r.span.Opens opening ∧ r.Ends ∧
      (r.IsUnterminated → ∃ before, lines = before ++ r.span.lines) := by
  induction h with
  | nil => cases hr
  | @idle n line rest regions _ _ ih =>
      obtain ⟨hstands, hopens, hends, hlast⟩ := ih hr
      refine ⟨hstands.append [line], hopens, hends, fun hu => ?_⟩
      obtain ⟨before, e⟩ := hlast hu
      exact ⟨line :: before, by rw [e]; rfl⟩
  | @region n r' rest regions hstart hopens hends hlast _ ih =>
      rcases List.mem_cons.mp hr with rfl | hr
      · refine ⟨⟨[], rest, rfl, by simpa using hstart⟩, hopens, hends, fun hu => ⟨[], ?_⟩⟩
        rw [hlast hu, List.append_nil]
        rfl
      · obtain ⟨hstands, hopens, hends, hlast⟩ := ih hr
        refine ⟨hstands.append r'.span.lines, hopens, hends, fun hu => ?_⟩
        obtain ⟨before, e⟩ := hlast hu
        exact ⟨r'.span.lines ++ before, by rw [e, List.append_assoc]⟩

/-- Each region ends before the next one begins. -/
theorem pairwise (h : Tiles opening n lines regions) :
    regions.Pairwise fun r s => r.span.endLine < s.span.startLine := by
  induction h with
  | nil => exact .nil
  | idle _ _ ih => exact ih
  | @region n r rest regions hstart _ _ _ htiles ih =>
      refine .cons (fun s hs => ?_) ih
      have := (htiles.of_mem hs).1.start_le
      rw [Block.endLine, hstart]
      omega

/-- A line on which a region may open lies in one. -/
theorem exists_covers (h : Tiles opening n lines regions) {before behind : List Text} {line : Text}
    (e : lines = before ++ line :: behind) (hline : opening.isOn line = true) :
    ∃ r ∈ regions, r.Covers (n + before.length) := by
  induction h generalizing before with
  | nil => cases before <;> cases e
  | @idle n first rest regions hfirst _ ih =>
      cases before with
      | nil =>
          obtain ⟨rfl, -⟩ := List.cons.inj e
          exact absurd hfirst (Opening.isOn_iff.mp hline)
      | cons x before =>
          obtain ⟨-, e⟩ := List.cons.inj e
          obtain ⟨r, hr, hc⟩ := ih e
          refine ⟨r, hr, ?_⟩
          rwa [List.length_cons, Int.natCast_succ, Int.add_comm _ 1, ← Int.add_assoc]
  | @region n r rest regions hstart hopens _ _ _ ih =>
      by_cases hlt : before.length < r.span.lineCount
      · refine ⟨r, List.mem_cons_self, ?_, ?_⟩
        · omega
        · rw [Block.endLine, hstart]
          omega
      · obtain ⟨s, rfl, e'⟩ := r.span.exists_behind e (Nat.le_of_not_lt hlt)
        obtain ⟨r', hr', hc⟩ := ih e'
        refine ⟨r', List.mem_cons_of_mem r hr', ?_⟩
        rwa [List.length_append, Int.natCast_add, ← Int.add_assoc]

end Tiles

end SuiteAudit
