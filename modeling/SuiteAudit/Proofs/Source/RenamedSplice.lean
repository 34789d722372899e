import SuiteAudit.Proofs.Pattern.Splice
import SuiteAudit.Proofs.Source.Renamed

/-! # Edits apart from the calls

Edits that put words in place of parts of some stretches (`IsNaming`) rename a text when no stretch
meets a call (`IsApart`) and each call lies within a line (`renamed_splice`).  The search for calls
and the edits go through the text together: at each place there is an edit, a call, or a character
that stays. -/

namespace SuiteAudit

/-- Where a hit ends. -/
def Hit.stop (h : Hit) : Nat := h.offset + h.text.length

namespace Opening

/-- The new text is the old one with a word in place of a part of it. -/
structure IsNaming (old new : Text) : Prop where
  nonempty : old ≠ []
  form : ∃ p inner n s, old = p ++ (inner ++ s) ∧ new = p ++ (n ++ s) ∧
    (∀ c ∈ inner, isInner c = true) ∧ IsForeign n

/-- An edit does not meet a call, and leaves no word directly before it. -/
def IsApart (e : Hit × Text) (call : Hit) : Prop :=
  call.stop ≤ e.1.offset ∨
    e.1.stop ≤ call.offset ∧ (e.1.stop = call.offset → wordAfter true e.2 = false)

theorem wordAfter_of_ne_nil {s : Text} (hs : s ≠ []) (w w' : Bool) :
    wordAfter w s = wordAfter w' s := by
  unfold wordAfter
  rw [List.getLast?_eq_some_getLast hs]
  rfl

theorem any_getLast? (b : Option Char) (s : Text) :
    (s.getLast?.or b).any Text.isWordChar = wordAfter (b.any Text.isWordChar) s := by
  unfold wordAfter
  cases s.getLast? <;> rfl

theorem not_opensCall_of_matchAt {b : Option Char} {t : Text} {o : Nat}
    (hm : case.pattern.matchAt ⟨b, t, o⟩ = none) (hb : b.any Text.isWordChar = false) :
    ¬ OpensCall t := by
  rintro ⟨q, title, k, hk, r, rfl⟩
  have : case.pattern.matchAt ⟨b, k ++ r, o⟩ = some (callHit o q title k) :=
    matchAt_case_iff.mpr ⟨hb, q, title, k, r, hk, rfl, rfl⟩
  rw [hm] at this
  cases this

theorem mem_calls {b : Option Char} {o : Nat} {t : Text} {c : Hit}
    (hc : c ∈ case.pattern.findAllFrom 0 b o t) : o ≤ c.offset ∧ c.text ≠ [] := by
  obtain ⟨a, r, -, ho, hm⟩ := Pattern.exists_of_mem_findAllFrom case_advances b o t hc
  exact ⟨by omega, case_advances _ _ hm⟩

/-- Up to the first call no call opens. -/
theorem passes_of_le : ∀ (s r : Text) (b : Option Char) (o : Nat),
    (∀ c ∈ case.pattern.findAllFrom 0 b o (s ++ r), o + s.length ≤ c.offset) →
      Passes (b.any Text.isWordChar) s r ∧ case.pattern.findAllFrom 0 b o (s ++ r) =
        case.pattern.findAllFrom 0 (s.getLast?.or b) (o + s.length) r
  | [], r, b, o, _ => ⟨trivial, rfl⟩
  | c :: s, r, b, o, h => by
      rw [List.cons_append] at h ⊢
      cases hm : case.pattern.matchAt ⟨b, c :: (s ++ r), o⟩ with
      | some hit =>
          obtain ⟨r', e⟩ := Pattern.matchAt_text_prefix_rest hm
          have e : hit.text ++ r' = c :: (s ++ r) := e
          rw [← e] at h hm
          rw [Pattern.findAllFrom_hit (case_advances _ _ hm) hm] at h
          have := h hit List.mem_cons_self
          rw [Pattern.matchAt_offset hm, List.length_cons] at this
          simp only at this
          omega
      | none =>
          rw [Pattern.findAllFrom_miss hm] at h ⊢
          obtain ⟨hp, he⟩ := passes_of_le s r (some c) (o + 1) fun d hd => by
            have := h d hd
            rw [List.length_cons] at this
            omega
          refine ⟨⟨not_opensCall_of_matchAt hm, hp⟩, ?_⟩
          rw [he, List.getLast?_cons, List.length_cons, Nat.add_right_comm, Nat.add_assoc]
          cases s.getLast? <;> rfl

theorem Renamed.keep_append {t t' : Text} : ∀ {s : Text} {w w' : Bool}, Passes w s t →
    Renamed (wordAfter w s) (wordAfter w' s) t t' → Renamed w w' (s ++ t) (s ++ t')
  | [], _, _, _, h => h
  | c :: s, w, w', hp, h => by
      rw [wordAfter_cons, wordAfter_cons] at h
      exact .keep hp.1 (Renamed.keep_append hp.2 h)

/-- A stretch with a word in it. -/
theorem Renamed.naming {w w' : Bool} {p inner n s t t' : Text} (hin : ∀ c ∈ inner, isInner c = true)
    (hn : IsForeign n) (hp : Passes w (p ++ (inner ++ s)) t)
    (h : Renamed (wordAfter w (p ++ (inner ++ s))) (wordAfter true s) t t') :
    Renamed w w' (p ++ (inner ++ s) ++ t) (p ++ (n ++ s) ++ t') := by
  obtain ⟨hp₁, hp₂⟩ := passes_append.mp hp
  obtain ⟨hp₂, hp₃⟩ := passes_append.mp hp₂
  rw [wordAfter_append, wordAfter_append] at h
  have h₃ := h.keep_append hp₃
  have h₂ : Renamed _ (wordAfter w' p) _ _ := h₃.swap hin hn hp₂
  have h₁ := h₂.keep_append (by rwa [List.append_assoc] at hp₁)
  simpa only [List.append_assoc] using h₁

/-! ### Going through the text -/

/-- What is true at a place of the text when `edits` are to come, where `w'` says whether a word goes
on before it in the new text. -/
structure Ready (b : Option Char) (o : Nat) (w' : Bool) (t : Text) (edits : List (Hit × Text)) :
    Prop where
  seam : w' = b.any Text.isWordChar ∨ ∀ c ∈ case.pattern.findAllFrom 0 b o t, o < c.offset
  line : ∀ c ∈ case.pattern.findAllFrom 0 b o t, '\n' ∉ c.text
  fits : Pattern.Fits o t edits
  naming : ∀ e ∈ edits, IsNaming e.1.text e.2
  apart : ∀ e ∈ edits, ∀ c ∈ case.pattern.findAllFrom 0 b o t, IsApart e c

namespace Ready

variable {b : Option Char} {o : Nat} {w' : Bool} {t r : Text} {edits : List (Hit × Text)}

theorem edits_eq_nil (h : Ready b o w' [] edits) : edits = [] := by
  cases edits with
  | nil => rfl
  | cons e edits =>
      obtain ⟨a, r, e', -, -⟩ := h.fits
      obtain ⟨-, e'⟩ := List.append_eq_nil_iff.mp e'.symm
      exact absurd (List.append_eq_nil_iff.mp e').1 (h.naming e List.mem_cons_self).nonempty

/-- There is an edit at the place, or all of them stand further on. -/
theorem edit_or_lt (h : Ready b o w' t edits) :
    (∃ g new rest, edits = (g, new) :: rest ∧ g.offset = o) ∨
      ∀ e ∈ edits.head?, o + 1 ≤ e.1.offset := by
  cases edits with
  | nil => exact Or.inr fun e he => by cases he
  | cons g rest =>
      rcases Nat.eq_or_lt_of_le (h.fits.le_offset g List.mem_cons_self) with heq | hlt
      · exact Or.inl ⟨g.1, g.2, rest, rfl, heq.symm⟩
      · refine Or.inr fun e he => ?_
        obtain rfl := Option.some.inj he
        exact hlt

/-- A character that stays. -/
theorem miss {c : Char} (h : Ready b o w' (c :: t) edits)
    (hm : case.pattern.matchAt ⟨b, c :: t, o⟩ = none)
    (hlt : ∀ e ∈ edits.head?, o + 1 ≤ e.1.offset) :
    Ready (some c) (o + 1) (Text.isWordChar c) t edits := by
  obtain ⟨-, hline, hfits, hnaming, hapart⟩ := h
  rw [Pattern.findAllFrom_miss hm] at hline hapart
  exact ⟨Or.inl rfl, hline, hfits.drop (s := [c]) hlt, hnaming, hapart⟩

/-- An edit that comes first before a call stands behind it. -/
theorem le_offset_of_call {call : Hit} (h : Ready b o w' t edits)
    (hc : call ∈ case.pattern.findAllFrom 0 b o t) (ho : call.offset = o) {e : Hit × Text}
    (he : e ∈ edits) : call.stop ≤ e.1.offset := by
  rcases h.apart e he call hc with h₁ | ⟨h₁, -⟩
  · exact h₁
  · have hle := h.fits.le_offset e he
    have hpos := List.length_pos_iff.mpr (h.naming e he).nonempty
    unfold Hit.stop at h₁
    omega

/-- A call that stays. -/
theorem call {q : Char} {title k : Text} (hk : IsCall q title k)
    (hb : b.any Text.isWordChar = false) (h : Ready b o w' (k ++ r) edits) :
    w' = false ∧ '\n' ∉ k ∧ (∀ e ∈ edits, o + k.length ≤ e.1.offset) ∧
      Ready (k.getLast?.or b) (o + k.length) false r edits := by
  have hm : case.pattern.matchAt ⟨b, k ++ r, o⟩ = some (callHit o q title k) :=
    matchAt_case_iff.mpr ⟨hb, q, title, k, r, hk, rfl, rfl⟩
  have hall : case.pattern.findAllFrom 0 b o (k ++ r) = callHit o q title k :: _ :=
    Pattern.findAllFrom_hit (h := callHit o q title k) hk.ne_nil hm
  have hmem : callHit o q title k ∈ case.pattern.findAllFrom 0 b o (k ++ r) := by
    rw [hall]
    exact List.mem_cons_self
  have hle : ∀ e ∈ edits, o + k.length ≤ e.1.offset := fun e he => h.le_offset_of_call hmem rfl he
  refine ⟨?_, h.line _ hmem, hle, ?_⟩
  · rcases h.seam with hw | hlt
    · rw [hw, hb]
    · exact absurd (hlt _ hmem) (Nat.lt_irrefl o)
  · refine ⟨Or.inl ?_, fun c hc => h.line c ?_, h.fits.drop fun e he => hle e (List.mem_of_mem_head? he),
      h.naming, fun e he c hc => h.apart e he c ?_⟩
    · rw [any_getLast?, hk.wordAfter]
    · rw [hall]
      exact List.mem_cons_of_mem _ hc
    · rw [hall]
      exact List.mem_cons_of_mem _ hc

/-- An edit. -/
theorem edit {h : Hit} {new p inner n s : Text} (he : h.text = p ++ (inner ++ s))
    (hnew : new = p ++ (n ++ s)) (hn : IsForeign n)
    (hr : Ready b h.offset w' (h.text ++ r) ((h, new) :: edits)) :
    Passes (b.any Text.isWordChar) h.text r ∧
      Ready (h.text.getLast?.or b) h.stop (wordAfter true s) r edits := by
  have hfar : ∀ c ∈ case.pattern.findAllFrom 0 b h.offset (h.text ++ r),
      h.offset + h.text.length ≤ c.offset ∧
        (h.stop = c.offset → wordAfter true new = false) := by
    intro c hc
    obtain ⟨hle, hne⟩ := mem_calls hc
    have hpos := List.length_pos_iff.mpr hne
    rcases hr.apart _ List.mem_cons_self c hc with h₁ | h₁
    · unfold Hit.stop at h₁
      simp only at h₁
      omega
    · exact h₁
  obtain ⟨hp, hall⟩ := passes_of_le h.text r b h.offset fun c hc => (hfar c hc).1
  obtain ⟨a, r', e', ho, hfits⟩ := hr.fits
  obtain rfl : a = [] := List.eq_nil_of_length_eq_zero (by omega)
  obtain rfl : r = r' := List.append_cancel_left e'
  refine ⟨hp, ?_, fun c hc => ?_, hfits, fun e he' => hr.naming e (List.mem_cons_of_mem _ he'),
    fun e he' c hc => ?_⟩
  · by_cases hs : s = []
    · refine Or.inr fun c hc => ?_
      rw [Hit.stop, ← hall] at hc
      refine Nat.lt_of_le_of_ne (hfar c hc).1 fun heq => ?_
      have := (hfar c hc).2 heq
      rw [hnew, hs, List.append_nil, wordAfter_append, hn.wordAfter] at this
      cases this
    · refine Or.inl ?_
      rw [any_getLast?, he, wordAfter_append, wordAfter_append]
      exact wordAfter_of_ne_nil hs _ _
  · rw [Hit.stop, ← hall] at hc
    exact hr.line c hc
  · rw [Hit.stop, ← hall] at hc
    exact hr.apart e (List.mem_cons_of_mem _ he') c hc

end Ready

/-- Edits that put words in place of stretches apart from the calls. -/
theorem renamed_splice (t : Text) (b : Option Char) (o : Nat) (w' : Bool)
    (edits : List (Hit × Text)) (h : Ready b o w' t edits) :
    Renamed (b.any Text.isWordChar) w' t (Pattern.splice edits o t) := by
  -- on what is left of the text, where each step keeps that the rest is ready
  induction hlen : t.length using Nat.strongRecOn generalizing t b o w' edits with
  | ind m ih =>
      rcases h.edit_or_lt with ⟨g, new, rest, rfl, rfl⟩ | hlt
      · obtain ⟨a, r, e, ho, -⟩ := h.fits
        obtain rfl : a = [] := List.eq_nil_of_length_eq_zero (by omega)
        obtain rfl : t = g.text ++ r := e
        obtain ⟨hne, p, inner, n, s, he, hnew, hin, hn⟩ : IsNaming g.text new :=
          h.naming _ List.mem_cons_self
        obtain ⟨hp, hr⟩ := Ready.edit he hnew hn h
        have hlt : r.length < (g.text ++ r).length := by
          have := List.length_pos_iff.mpr hne
          rw [List.length_append]
          omega
        have ih := ih r.length (by omega) r _ _ _ _ hr rfl
        rw [any_getLast?] at ih
        rw [Pattern.splice_hit rfl]
        rw [he] at hp ih ⊢
        rw [hnew]
        have hnamed : Renamed _ w' _ _ := Renamed.naming hin hn hp ih
        rw [Hit.stop, he] at hnamed
        exact hnamed
      · cases t with
        | nil =>
            rw [h.edits_eq_nil]
            exact .nil
        | cons c t =>
            cases hm : case.pattern.matchAt ⟨b, c :: t, o⟩ with
            | none =>
                have ih := ih t.length (by simp [← hlen]) t _ _ _ _ (h.miss hm hlt) rfl
                have hle : ∀ e ∈ edits, o + [c].length ≤ e.1.offset := (h.miss hm hlt).fits.le_offset
                rw [show c :: t = [c] ++ t from rfl, Pattern.splice_append hle]
                exact .keep (not_opensCall_of_matchAt hm) ih
            | some hit =>
                obtain ⟨hb, q, title, k, r, hk, e, -⟩ := matchAt_case_iff.mp hm
                have hlt' : r.length < (c :: t).length := by
                  have := List.length_pos_iff.mpr hk.ne_nil
                  rw [e, List.length_append]
                  omega
                rw [e] at h ⊢
                obtain ⟨rfl, hn, hle, hr⟩ := h.call hk hb
                have ih := ih r.length (by omega) r _ _ _ _ hr rfl
                rw [any_getLast?, hk.wordAfter] at ih
                rw [hb, Pattern.splice_append hle]
                exact .call hk hn ih

end Opening
end SuiteAudit
