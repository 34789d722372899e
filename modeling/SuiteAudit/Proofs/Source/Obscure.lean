import SuiteAudit.Proofs.Literal.WaitCall
import SuiteAudit.Proofs.Pattern.FixedText
import SuiteAudit.Source.Comment

/-! # Lines of the six kinds

What makes a line need an explanation is a call in it, which neither begins nor ends with a blank.
So a line is of the same kind with and without the blanks around it (`Obscurity.ofLine?_trim`).  A
long wait is a fixed wait, so that its time can be read (`Obscurity.exists_wait`).  A finding is known
by its line (`eq_of_commentFindingAt?`). -/

namespace SuiteAudit

namespace Text

/-- A text that begins and ends with fixed texts is solid when their ends are no blanks. -/
theorem isSolid_of_ends {a b s : Text} (ha : a.head?.any (! isBlank ·) = true)
    (hb : b.getLast?.any (! isBlank ·) = true) (has : a <+: s) (hbs : b <:+ s) : IsSolid s := by
  obtain ⟨r, rfl⟩ := has
  obtain ⟨l, e⟩ := hbs
  refine ⟨?_, ?_⟩
  · cases a with
    | nil => cases ha
    | cons c a => exact ha
  · rw [← e, List.getLast?_append]
    cases h : b.getLast? with
    | none => rw [h] at hb; cases hb
    | some c => rw [h] at hb; exact hb

end Text

namespace Obscurity

theorem pattern_plain (o : Obscurity) : o.pattern.Plain := by
  cases o <;> simp [pattern, Pattern.chain, Pattern.lit, Pattern.blanks, Pattern.digits,
    Pattern.inLine, Pattern.Plain]

/-- What a call of a kind begins with, and what it ends with. -/
def ends : Obscurity → Text × Text
  | longWait => ("waitForTimeout(", ")")
  | bulkCount => ("expect(", ")")
  | pageEvaluate => ("page.evaluate(", "page.evaluate(")
  | concurrent => ("Promise.all(", "Promise.all(")
  | selectorTimeout => ("waitForSelector(", "timeout")
  | positionalLocator => ("locator(", ").nth(")

/-- The last of two stretches ends what both make. -/
theorem suffix_of_seq {p q : Pattern} {b : Text}
    (hq : ∀ {place g s g'}, q.Takes place g s g' → b <:+ s) {place : Place} {g g' : Groups}
    {s : Text} (h : (Pattern.seq p q).Takes place g s g') : b <:+ s := by
  obtain ⟨s₁, s₂, g₁, -, h₂, rfl⟩ := h
  exact (hq h₂).trans (List.suffix_append s₁ s₂)

theorem suffix_of_lit {b : Text} {place : Place} {g g' : Groups} {s : Text}
    (h : (Pattern.lit b).Takes place g s g') : b <:+ s := h.2.1 ▸ List.suffix_refl _

theorem prefix_of_seq_lit {a : Text} {q : Pattern} {place : Place} {g g' : Groups} {s : Text}
    (h : (Pattern.seq (.lit a) q).Takes place g s g') : a <+: s := by
  obtain ⟨s₁, s₂, g₁, ⟨-, rfl, -⟩, -, rfl⟩ := h
  exact List.prefix_append s₁ s₂

theorem ends_of_describes {o : Obscurity} {s : Text} (h : o.pattern.Describes s) :
    o.ends.1 <+: s ∧ o.ends.2 <:+ s := by
  cases o with
  | longWait => exact ⟨prefix_of_seq_lit h,
      suffix_of_seq (suffix_of_seq (suffix_of_seq (suffix_of_seq suffix_of_lit))) h⟩
  | bulkCount => exact ⟨prefix_of_seq_lit h,
      suffix_of_seq (suffix_of_seq (suffix_of_seq (suffix_of_seq (suffix_of_seq
        (suffix_of_seq suffix_of_lit))))) h⟩
  | pageEvaluate => exact ⟨h.2.1 ▸ List.prefix_refl _, suffix_of_lit h⟩
  | concurrent => exact ⟨h.2.1 ▸ List.prefix_refl _, suffix_of_lit h⟩
  | selectorTimeout => exact ⟨prefix_of_seq_lit h, suffix_of_seq (suffix_of_seq suffix_of_lit) h⟩
  | positionalLocator => exact ⟨prefix_of_seq_lit h, suffix_of_seq (suffix_of_seq suffix_of_lit) h⟩

theorem isSolid_of_describes {o : Obscurity} {s : Text} (h : o.pattern.Describes s) :
    Text.IsSolid s := by
  obtain ⟨ha, hb⟩ := ends_of_describes h
  refine Text.isSolid_of_ends ?_ ?_ ha hb <;> cases o <;> decide

/-- The kind of a line does not depend on the blanks around it. -/
theorem ofLine?_trim (line : Text) : ofLine? (Text.trim line) = ofLine? line := by
  have h : ∀ o : Obscurity, o.pattern.occursIn (Text.trim line) = o.pattern.occursIn line :=
    fun o => (pattern_plain o).occursIn_trim (fun _ hs => isSolid_of_describes hs) line
  simp only [ofLine?, h]

/-- A long wait is a fixed wait. -/
theorem exists_isWait_of_describes {s : Text} (h : longWait.pattern.Describes s) :
    ∃ d, Literal.IsWait d s := by
  obtain ⟨_, _, _, ⟨-, rfl, -⟩, h, rfl⟩ := h
  obtain ⟨b₁, _, _, ⟨-, hb₁, -, -⟩, h, rfl⟩ := h
  obtain ⟨d, _, _, ⟨-, hd, hl, -⟩, h, rfl⟩ := h
  obtain ⟨b₂, _, _, ⟨-, hb₂, -, -⟩, ⟨-, rfl, -⟩, rfl⟩ := h
  exact ⟨d, hd, List.ne_nil_of_length_pos (by omega), b₁, b₂, hb₁, hb₂, rfl⟩

/-- The time of a long wait can be read. -/
theorem exists_wait {line : Text} (h : ofLine? line = some longWait) :
    ∃ hit, Literal.timeoutCall.find? line = some hit := by
  unfold ofLine? at h
  have ho := List.find?_some h
  obtain ⟨s, hs, a, r, rfl⟩ := (pattern_plain longWait).occursIn_iff.mp ho
  obtain ⟨d, hw⟩ := exists_isWait_of_describes hs
  obtain ⟨groups, ht⟩ := Literal.timeoutCall_takes hw a.getLast? r a.length
  rw [List.append_assoc]
  exact Option.isSome_iff_exists.mp (Pattern.occursIn_of_takes ht)

end Obscurity

/-- A finding is on the line at its index, and of its kind. -/
theorem eq_of_commentFindingAt? {lines : List Text} {index : Nat} {line : Text} {f : CommentFinding}
    (h : commentFindingAt? lines index line = some f) :
    Obscurity.ofLine? line = some f.kind ∧ f = ⟨index + 1, f.kind, Text.trim line⟩ := by
  unfold commentFindingAt? at h
  split at h
  · cases h
  · next kind hkind =>
    split at h
    · cases h
    · obtain rfl := Option.some.inj h
      exact ⟨hkind, rfl⟩
end SuiteAudit
