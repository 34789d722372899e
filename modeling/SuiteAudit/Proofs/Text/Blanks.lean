import SuiteAudit.Proofs.Text.Infix
import SuiteAudit.Text.Blank
import SuiteAudit.Text.WordChar

/-! # Blanks, and texts without the blanks around them

No blank is a character of a word or a digit.  The tables of ranges are long, so the few blanks are
listed (`blankCodes`) and each of them is looked up.  A text is what `trim` leaves of it between blanks
(`exists_trim`).  So what begins and ends with no blank stands in a text exactly when it stands in the
trimmed one (`infix_trim_iff`). -/

namespace SuiteAudit.Text

variable {t s : Text}

/-! ### Classes of characters that exclude each other -/

/-- What holds of each character of a text; of a fixed text it is decided one character at a time. -/
theorem forall_mem_of_all {P : Char → Prop} [DecidablePred P]
    (h : (t.all fun c => decide (P c)) = true) : ∀ c ∈ t, P c := by
  simpa using h

/-- The code points of all blanks. -/
def blankCodes : List Nat :=
  blankRanges.flatMap fun r => (List.range (r.2 + 1 - r.1)).map (r.1 + ·)

theorem mem_blankCodes {c : Char} (h : isBlank c = true) : c.toNat ∈ blankCodes := by
  obtain ⟨r, hr, h₁, h₂⟩ := (inRanges_iff _ _).mp h
  refine List.mem_flatMap.mpr ⟨r, hr, List.mem_map.mpr ⟨c.toNat - r.1, ?_, by omega⟩⟩
  exact List.mem_range.mpr (by omega)

/-- What holds of every blank in the list holds of every blank. -/
theorem forall_blank {P : Char → Prop} (h : ∀ n ∈ blankCodes, P (Char.ofNat n)) {c : Char}
    (hc : isBlank c = true) : P c := by
  have := h _ (mem_blankCodes hc)
  rwa [Char.ofNat_toNat] at this

theorem not_isWordChar_of_isBlank {c : Char} (h : isBlank c = true) : isWordChar c = false :=
  forall_blank (P := fun c => isWordChar c = false) (by decide +kernel) h

theorem not_isDigit_of_isBlank {c : Char} (h : isBlank c = true) : isDigit c = false :=
  forall_blank (P := fun c => isDigit c = false) (by decide +kernel) h

theorem not_isBlank_of_isWordChar {c : Char} (h : isWordChar c = true) : isBlank c = false := by
  cases hb : isBlank c with
  | false => rfl
  | true => rw [not_isWordChar_of_isBlank hb] at h; exact h.symm

theorem not_isBlank_of_isDigit {c : Char} (h : isDigit c = true) : isBlank c = false := by
  cases hb : isBlank c with
  | false => rfl
  | true => rw [not_isDigit_of_isBlank hb] at h; exact h.symm

/-! ### Trimming -/

theorem exists_trimEnd (t : Text) :
    ∃ b, (∀ c ∈ b, isBlank c = true) ∧ t = trimEnd t ++ b := by
  refine ⟨(t.reverse.takeWhile isBlank).reverse, fun c hc => ?_, ?_⟩
  · exact List.all_eq_true.mp List.all_takeWhile c (List.mem_reverse.mp hc)
  · rw [trimEnd, trimEndWhile, ← List.reverse_append, List.takeWhile_append_dropWhile,
      List.reverse_reverse]

theorem exists_trimStart (t : Text) :
    ∃ a, (∀ c ∈ a, isBlank c = true) ∧ t = a ++ trimStart t :=
  ⟨t.takeWhile isBlank, List.all_eq_true.mp List.all_takeWhile,
    List.takeWhile_append_dropWhile.symm⟩

theorem trimStart_eq_nil_or_head (t : Text) :
    trimStart t = [] ∨ (trimStart t).head?.any (! isBlank ·) = true := by
  have := List.head?_dropWhile_not isBlank t
  cases h : trimStart t with
  | nil => exact .inl rfl
  | cons c r =>
      rw [trimStart] at h
      rw [h] at this
      exact .inr (by simpa using this)

theorem trimEnd_eq_nil_or_getLast (t : Text) :
    trimEnd t = [] ∨ (trimEnd t).getLast?.any (! isBlank ·) = true := by
  rw [trimEnd, trimEndWhile, List.getLast?_reverse, List.reverse_eq_nil_iff]
  exact trimStart_eq_nil_or_head t.reverse

/-- A text is its trimmed form with blanks around it. -/
theorem exists_trim (t : Text) : ∃ a b, (∀ c ∈ a, isBlank c = true) ∧
    (∀ c ∈ b, isBlank c = true) ∧ t = a ++ (trim t ++ b) := by
  obtain ⟨a, ha, e⟩ := exists_trimStart t
  obtain ⟨b, hb, e'⟩ := exists_trimEnd (trimStart t)
  exact ⟨a, b, ha, hb, by rw [trim, ← e', ← e]⟩

theorem infix_of_trim (t : Text) : trim t <:+: t := by
  obtain ⟨a, b, -, -, e⟩ := exists_trim t
  exact ⟨a, b, by rw [List.append_assoc, ← e]⟩

/-- A text that begins and ends with no blank. -/
def IsSolid (s : Text) : Prop :=
  s.head?.any (! isBlank ·) = true ∧ s.getLast?.any (! isBlank ·) = true

theorem trimStart_append {a : Text} (ha : ∀ c ∈ a, isBlank c = true) (t : Text) :
    trimStart (a ++ t) = trimStart t :=
  List.dropWhile_append_of_pos ha

theorem trim_append_left {a : Text} (ha : ∀ c ∈ a, isBlank c = true) (t : Text) :
    trim (a ++ t) = trim t := by
  rw [trim, trimStart_append ha, trim]

/-- Between blanks nothing else is trimmed. -/
theorem trim_surrounded {a b : Text} (ha : ∀ c ∈ a, isBlank c = true)
    (hb : ∀ c ∈ b, isBlank c = true) (hs : IsSolid s) : trim (a ++ (s ++ b)) = s := by
  have hrun {t r : Text} (ht : t.head?.any (! isBlank ·) = true) :
      (t ++ r).dropWhile isBlank = t ++ r := by
    cases t with
    | nil => cases ht
    | cons c t => exact List.dropWhile_cons_of_neg (by simpa using ht)
  have hreverse : ∀ c ∈ b.reverse, isBlank c = true := fun c hc => hb c (List.mem_reverse.mp hc)
  rw [trim_append_left ha, trim, trimStart, hrun hs.1, trimEnd, trimEndWhile, List.reverse_append,
    List.dropWhile_append_of_pos hreverse, ← List.append_nil s.reverse, hrun, List.append_nil,
    List.reverse_reverse]
  rw [List.head?_reverse]
  exact hs.2

/-- Nothing is trimmed from a text that begins and ends with no blank. -/
theorem trim_eq_self (hs : IsSolid s) : trim s = s := by
  simpa using trim_surrounded (a := []) (b := []) (by simp) (by simp) hs

theorem trim_of_blank (h : ∀ c ∈ t, isBlank c = true) : trim t = [] := by
  have := trim_append_left h []
  rwa [List.append_nil] at this

theorem trim_eq_nil_or_isSolid (t : Text) : trim t = [] ∨ IsSolid (trim t) := by
  rcases trimEnd_eq_nil_or_getLast (trimStart t) with h | hlast
  · exact .inl h
  · refine .inr ⟨?_, hlast⟩
    -- what is left begins like the text without the blanks before it
    obtain ⟨b, -, e⟩ := exists_trimEnd (trimStart t)
    have e : trimStart t = trim t ++ b := e
    have hne : trim t ≠ [] := fun h => by
      rw [trim] at h
      rw [h] at hlast
      cases hlast
    obtain ⟨c, r, hc⟩ := List.exists_cons_of_ne_nil hne
    rcases trimStart_eq_nil_or_head t with h | h
    · rw [h, hc] at e
      cases e
    · rw [e, hc] at h
      rw [hc]
      exact h

theorem trim_append_right {b : Text} (hb : ∀ c ∈ b, isBlank c = true) (t : Text) :
    trim (t ++ b) = trim t := by
  obtain ⟨a, d, ha, hd, e⟩ := exists_trim t
  have hdb : ∀ c ∈ d ++ b, isBlank c = true := fun c hc =>
    (List.mem_append.mp hc).elim (hd c) (hb c)
  rcases trim_eq_nil_or_isSolid t with h | h
  · rw [h, List.nil_append] at e
    have ht : ∀ c ∈ t ++ b, isBlank c = true := fun c hc => by
      rw [e, List.append_assoc] at hc
      exact (List.mem_append.mp hc).elim (ha c) (hdb c)
    rw [trim_of_blank ht, h]
  · have e : t ++ b = a ++ (trim t ++ (d ++ b)) := by
      conv => lhs; rw [e]
      simp
    rw [e, trim_surrounded ha hdb h]

theorem trim_trim (t : Text) : trim (trim t) = trim t := by
  rcases trim_eq_nil_or_isSolid t with h | h
  · rw [h]
    rfl
  · exact trim_eq_self h

theorem infix_trim_iff (hs : IsSolid s) : s <:+: trim t ↔ s <:+: t := by
  refine ⟨fun h => h.trans (infix_of_trim t), fun h => ?_⟩
  obtain ⟨a, b, ha, hb, e⟩ := exists_trim t
  rw [e] at h
  have hfront : s <:+: trim t ++ b := by
    cases s with
    | nil => exact List.nil_infix
    | cons c s =>
        have hc : isBlank c = false := by simpa using hs.1
        refine infix_of_head_not_mem (fun hm => ?_) h
        rw [ha c hm] at hc
        cases hc
  obtain rfl | ⟨s, c, rfl⟩ := List.eq_nil_or_concat s
  · exact List.nil_infix
  · have hc : isBlank c = false := by simpa using hs.2
    rw [List.concat_eq_append] at hfront ⊢
    refine infix_of_last_not_mem (fun hm => ?_) hfront
    rw [hb c hm] at hc
    cases hc

end SuiteAudit.Text
