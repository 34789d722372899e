import SuiteAudit.Proofs.Source.ExactScan

/-! # Two scans of the same lines

A scan looks for one kind of call, but where a region ends is said by its braces alone.  Where a
text in which a region may end is cut, a region may end in one of the parts (`settled_of_append`).
So a region that begins within another one ends within it, whichever scans have found the two
(`Tiles.endLine_le`): one lies within the other, or they share no line (`Tiles.within_or_apart`). -/

namespace SuiteAudit

/-- When braces are settled over some lines, they are so over the first of them or over the
others. -/
theorem settled_of_append {a b : List Text} (h : Settled (Text.joinLines (a ++ b))) :
    Settled (Text.joinLines a) ∨ Settled (Text.joinLines b) := by
  rcases List.eq_nil_or_concat a with rfl | ⟨_, _, ha⟩
  · exact Or.inr h
  rcases List.eq_nil_or_concat b with rfl | ⟨_, _, hb⟩
  · rw [List.append_nil] at h
    exact Or.inl h
  have ha : a ≠ [] := by simp [ha]
  have hb : b ≠ [] := by simp [hb]
  have hnet := netBraces_joinLines_append ha hb
  have hmem := mem_joinLines_append ha hb
  unfold Settled at h ⊢
  simp only [balanced_iff, overClosed_iff] at h ⊢
  by_cases ha' : netBraces (Text.joinLines a) < 0
  · exact Or.inl (Or.inr ha')
  by_cases hb' : netBraces (Text.joinLines b) < 0
  · exact Or.inr (Or.inr hb')
  -- no part closes more than it opens, so each opens as many as it closes
  rcases h with ⟨hbrace, hzero⟩ | hneg
  · rcases hmem.mp hbrace with hbrace | hbrace
    · exact Or.inl (Or.inl ⟨hbrace, by omega⟩)
    · exact Or.inr (Or.inl ⟨hbrace, by omega⟩)
  · omega

namespace Block

/-- The lines of a block are among those of another one. -/
def Within (b c : Block) : Prop := c.startLine ≤ b.startLine ∧ b.endLine ≤ c.endLine

/-- A block lies within another one, behind its first line. -/
def NestedIn (b c : Block) : Prop := c.startLine < b.startLine ∧ b.endLine ≤ c.endLine

/-- Two blocks share no line. -/
def Apart (b c : Block) : Prop := b.endLine < c.startLine ∨ c.endLine < b.startLine

instance (b c : Block) : Decidable (b.Within c) := inferInstanceAs (Decidable (_ ∧ _))

instance (b c : Block) : Decidable (b.NestedIn c) := inferInstanceAs (Decidable (_ ∧ _))

instance (b c : Block) : Decidable (b.Apart c) := inferInstanceAs (Decidable (_ ∨ _))

end Block

variable {opening opening' : Opening} {n : Int} {lines : List Text} {regions regions' : List Region}

/-- What opens within lines over which the braces are settled ends within them. -/
theorem Block.Opens.endLine_le {b c : Block} (hb : b.Opens opening) (hc : c.Opens opening')
    (hbs : b.StandsIn n lines) (hcs : c.StandsIn n lines) (hsettled : Settled b.content)
    (hlow : b.startLine ≤ c.startLine) (hhigh : c.startLine ≤ b.endLine) :
    c.endLine ≤ b.endLine := by
  by_contra hlt
  obtain ⟨before, behind, e, hstart⟩ := hbs
  obtain ⟨before', behind', e', hstart'⟩ := hcs
  rw [Block.endLine, Block.lineCount] at hhigh
  rw [Block.endLine, Block.endLine, Block.lineCount, Block.lineCount] at hlt
  rw [e, List.append_assoc, List.append_assoc] at e'
  -- the lines of `b` before the first one of `c`, and those from it on
  obtain ⟨a, ha⟩ : before <+: before' :=
    List.prefix_of_prefix_length_le ⟨_, rfl⟩ ⟨_, e'.symm⟩ (by omega)
  rw [← ha, List.append_assoc] at e'
  have e' := List.append_cancel_left e'
  have hlen : before'.length = before.length + a.length := by rw [← ha, List.length_append]
  obtain ⟨d, hd⟩ : a <+: b.lines :=
    List.prefix_of_prefix_length_le ⟨_, e'.symm⟩ ⟨_, rfl⟩ (by omega)
  rw [← hd, List.append_assoc] at e'
  have e' := List.append_cancel_left e'
  have hlen' : b.lines.length = a.length + d.length := by rw [← hd, List.length_append]
  have hdc : d <+: c.lines := List.prefix_of_prefix_length_le ⟨_, rfl⟩ ⟨_, e'.symm⟩ (by omega)
  have hd' : d ≠ c.lines := fun h => by
    rw [h] at hlen'
    omega
  have ha' : a ≠ b.lines := fun h => by
    have := congrArg List.length h
    omega
  rw [Block.content, ← hd] at hsettled
  rcases settled_of_append hsettled with h | h
  · exact hb.fewer a ⟨d, hd⟩ ha' h
  · exact hc.fewer d hdc hd' h

namespace Tiles

/-- A region that is not terminated goes to the end of the lines. -/
theorem endLine_of_unterminated (h : Tiles opening n lines regions) {r : Region}
    (hr : r ∈ regions) (hu : r.IsUnterminated) : r.span.endLine + 1 = n + lines.length := by
  induction h with
  | nil => cases hr
  | idle _ _ ih =>
      rw [ih hr, List.length_cons]
      omega
  | @region n r' rest regions hstart _ _ hlast _ ih =>
      rcases List.mem_cons.mp hr with rfl | hr
      · rw [hlast hu, List.append_nil, Block.endLine, Block.lineCount, hstart]
        omega
      · rw [ih hr, List.length_append, Block.lineCount]
        omega

/-- A region that begins within another one ends within it. -/
theorem endLine_le (h : Tiles opening n lines regions) (h' : Tiles opening' n lines regions')
    {r s : Region} (hr : r ∈ regions) (hs : s ∈ regions') (hrs : r.Covers s.span.startLine) :
    s.span.endLine ≤ r.span.endLine := by
  obtain ⟨hstands, hopens, hends, -⟩ := h.of_mem hr
  obtain ⟨hstands', hopens', -⟩ := h'.of_mem hs
  have hsettled := fun hset => hopens.endLine_le hopens' hstands hstands' hset hrs.1 hrs.2
  cases r with
  | block b => exact hsettled (Or.inl hends)
  | dropped b reason =>
      cases reason with
      | overClosed => exact hsettled (Or.inr hends)
      | unterminated =>
          have hend : b.endLine + 1 = n + lines.length := h.endLine_of_unterminated hr trivial
          have hlt := hstands'.endLine_lt
          show s.span.endLine ≤ b.endLine
          omega

/-- Of two regions one lies within the other, or they share no line. -/
theorem within_or_apart (h : Tiles opening n lines regions) (h' : Tiles opening' n lines regions')
    {r s : Region} (hr : r ∈ regions) (hs : s ∈ regions') :
    r.span.Within s.span ∨ s.span.NestedIn r.span ∨ r.span.Apart s.span := by
  by_cases hrs : r.Covers s.span.startLine
  · have hle := h.endLine_le h' hr hs hrs
    by_cases heq : r.span.startLine = s.span.startLine
    · have hpos := (h'.of_mem hs).2.1.startLine_le
      have hsr : s.Covers r.span.startLine := ⟨by omega, by omega⟩
      exact Or.inl ⟨by omega, h'.endLine_le h hs hr hsr⟩
    · have := hrs.1
      exact Or.inr (Or.inl ⟨by omega, hle⟩)
  · by_cases hsr : s.Covers r.span.startLine
    · exact Or.inl ⟨hsr.1, h'.endLine_le h hs hr hsr⟩
    · unfold Region.Covers at hrs hsr
      right
      right
      unfold Block.Apart
      omega

end Tiles

end SuiteAudit
