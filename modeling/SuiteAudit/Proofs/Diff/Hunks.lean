import SuiteAudit.Diff.Unified
import SuiteAudit.Proofs.Diff.Common

/-! # Hunks

The edits between two lists of lines stand one after the other in both and leave nothing out
(`edits_tiles`), and each says what is the case (`Edit.Fits`).  Where lines are left out of the
hunks, they are the same in both lists, so that a walk over the hunks and over equal lines before,
between and behind them goes through both lists to their ends (`hunks_hunked`). -/

namespace SuiteAudit.Diff

variable {old new : List Text}

/-! ### Slices -/

theorem length_slice {ls : List Text} {lo hi : Nat} (h : hi ≤ ls.length) :
    (slice ls lo hi).length = hi - lo := by
  rw [slice, List.length_take, List.length_drop]
  omega

theorem slice_self (ls : List Text) (i : Nat) : slice ls i i = [] := by
  rw [slice, Nat.sub_self, List.take_zero]

theorem slice_zero (ls : List Text) (hi : Nat) : slice ls 0 hi = ls.take hi := rfl

theorem slice_append (ls : List Text) {lo mid hi : Nat} (h : lo ≤ mid) (h' : mid ≤ hi) :
    slice ls lo mid ++ slice ls mid hi = slice ls lo hi := by
  obtain ⟨m, rfl⟩ := Nat.exists_eq_add_of_le h
  obtain ⟨n, rfl⟩ := Nat.exists_eq_add_of_le h'
  simp only [slice]
  rw [Nat.add_sub_cancel_left, Nat.add_sub_cancel_left, Nat.add_assoc, Nat.add_sub_cancel_left,
    List.take_add, List.drop_drop]

/-- A slice in three parts. -/
theorem slice_append₃ (ls : List Text) {i a a' m : Nat} (h₁ : i ≤ a) (h₂ : a ≤ a') (h₃ : a' ≤ m) :
    slice ls i m = slice ls i a ++ (slice ls a a' ++ slice ls a' m) := by
  rw [slice_append ls h₂ h₃, slice_append ls h₁ (Nat.le_trans h₂ h₃)]

/-! ### Equal lines -/

/-- From two places to two others the lines are the same. -/
def Skips (old new : List Text) (i j i' j' : Nat) : Prop :=
  ∃ n, i' = i + n ∧ j' = j + n ∧ Common.Agrees old new ⟨i, j, n⟩

variable {i j a b a' b' i' j' : Nat}

theorem Skips.refl (old new : List Text) (i j : Nat) : Skips old new i j i j :=
  ⟨0, rfl, rfl, Common.agrees_empty old new i j⟩

theorem Skips.le (h : Skips old new i j i' j') : i ≤ i' ∧ j ≤ j' := by
  obtain ⟨n, rfl, rfl, -⟩ := h
  exact ⟨Nat.le_add_right i n, Nat.le_add_right j n⟩

theorem Skips.trans (h : Skips old new i j a b) (h' : Skips old new a b i' j') :
    Skips old new i j i' j' := by
  obtain ⟨m, rfl, rfl, hm⟩ := h
  obtain ⟨n, rfl, rfl, hn⟩ := h'
  exact ⟨m + n, Nat.add_assoc i m n, Nat.add_assoc j m n, hm.append hn rfl rfl⟩

/-- Equal lines are cut into equal lines. -/
theorem Skips.cut {n k : Nat} (h : Skips old new i j (i + n) (j + n)) (hk : k ≤ n) :
    Skips old new i j (i + k) (j + k) ∧ Skips old new (i + k) (j + k) (i + n) (j + n) := by
  obtain ⟨n', e, -, h⟩ := h
  obtain rfl := Nat.add_left_cancel e
  refine ⟨⟨k, rfl, rfl, fun m hm => h m (Nat.lt_of_lt_of_le hm hk)⟩,
    ⟨n - k, by omega, by omega, fun m hm => ?_⟩⟩
  obtain ⟨l, ho, hn⟩ := h (k + m) (by simp only at hm ⊢; omega)
  exact ⟨l, by rw [← ho, Nat.add_assoc], by rw [← hn, Nat.add_assoc]⟩

theorem Skips.slice_eq (h : Skips old new i j i' j') : slice old i i' = slice new j j' := by
  obtain ⟨n, rfl, rfl, h⟩ := h
  refine List.ext_getElem? fun k => ?_
  simp only [slice, Nat.add_sub_cancel_left, List.getElem?_take, List.getElem?_drop]
  split
  · next hk =>
    obtain ⟨l, ho, hn⟩ := h k hk
    rw [ho, hn]
  · rfl

theorem Skips.length_slice (h : Skips old new i j i' j') : (slice old i i').length = i' - i := by
  obtain ⟨n, rfl, rfl, h⟩ := h
  cases n with
  | zero => rw [Nat.add_zero, slice_self, Nat.sub_self, List.length_nil]
  | succ n =>
      obtain ⟨l, hl, -⟩ := h n (Nat.lt_succ_self n)
      obtain ⟨hlt, -⟩ := List.getElem?_eq_some_iff.mp hl
      exact Diff.length_slice hlt

/-! ### Edits -/

/-- What an edit says of two lists of lines is the case. -/
structure Edit.Fits (old new : List Text) (e : Edit) : Prop where
  oldLe : e.oldLo ≤ e.oldHi
  oldEnd : e.oldHi ≤ old.length
  newLe : e.newLo ≤ e.newHi
  newEnd : e.newHi ≤ new.length
  equal : e.kind = .equal → Skips old new e.oldLo e.newLo e.oldHi e.newHi
  delete : e.kind = .delete → e.newLo = e.newHi
  insert : e.kind = .insert → e.oldLo = e.oldHi

/-- Edits that fit stand one after the other in both lists, from two places to two others. -/
def Tiles (old new : List Text) : Nat → Nat → List Edit → Nat → Nat → Prop
  | i, j, [], i', j' => i = i' ∧ j = j'
  | i, j, e :: es, i', j' => e.oldLo = i ∧ e.newLo = j ∧ e.Fits old new ∧
      Tiles old new e.oldHi e.newHi es i' j'

theorem tiles_singleton {e : Edit} (h : e.Fits old new) :
    Tiles old new e.oldLo e.newLo [e] e.oldHi e.newHi :=
  ⟨rfl, rfl, h, rfl, rfl⟩

theorem tiles_append {ds : List Edit} : ∀ {es : List Edit} {i j : Nat},
    Tiles old new i j (es ++ ds) i' j' ↔
      ∃ a b, Tiles old new i j es a b ∧ Tiles old new a b ds i' j'
  | [], i, j => ⟨fun h => ⟨i, j, ⟨rfl, rfl⟩, h⟩, fun ⟨_, _, ⟨hi, hj⟩, h⟩ => hi ▸ hj ▸ h⟩
  | e :: es, i, j => by
      rw [List.cons_append]
      constructor
      · rintro ⟨ho, hn, hfit, h⟩
        obtain ⟨a, b, h₁, h₂⟩ := tiles_append.mp h
        exact ⟨a, b, ⟨ho, hn, hfit, h₁⟩, h₂⟩
      · rintro ⟨a, b, ⟨ho, hn, hfit, h₁⟩, h₂⟩
        exact ⟨ho, hn, hfit, tiles_append.mpr ⟨a, b, h₁, h₂⟩⟩

theorem Tiles.le : ∀ {es : List Edit} {i j : Nat}, Tiles old new i j es i' j' → i ≤ i' ∧ j ≤ j'
  | [], _, _, ⟨rfl, rfl⟩ => ⟨Nat.le_refl _, Nat.le_refl _⟩
  | _ :: _, _, _, ⟨ho, hn, hfit, h⟩ =>
      ⟨ho ▸ Nat.le_trans hfit.oldLe h.le.1, hn ▸ Nat.le_trans hfit.newLe h.le.2⟩

theorem Tiles.fits : ∀ {es : List Edit} {i j : Nat}, Tiles old new i j es i' j' →
    ∀ e ∈ es, e.Fits old new
  | [], _, _, _ => fun _ he => by cases he
  | _ :: _, _, _, ⟨_, _, hfit, h⟩ => List.forall_mem_cons.mpr ⟨hfit, h.fits⟩

theorem Tiles.head : ∀ {es : List Edit} {i j : Nat}, Tiles old new i j es i' j' →
    ∀ e ∈ es.head?, e.oldLo = i ∧ e.newLo = j
  | _ :: _, _, _, ⟨ho, hn, _, _⟩, _, rfl => ⟨ho, hn⟩

theorem Tiles.getLast : ∀ {es : List Edit} {i j : Nat}, Tiles old new i j es i' j' →
    ∀ e ∈ es.getLast?, e.oldHi = i' ∧ e.newHi = j'
  | [_], _, _, ⟨_, _, _, h⟩, _, rfl => h
  | _ :: _ :: _, _, _, ⟨_, _, _, h⟩, e, he => h.getLast e (List.getLast?_cons_cons ▸ he)

/-- The lines of all edits, one after the other. -/
theorem Tiles.flatMap_slice : ∀ {es : List Edit} {i j : Nat}, Tiles old new i j es i' j' →
    (es.flatMap fun e => slice old e.oldLo e.oldHi) = slice old i i' ∧
      (es.flatMap fun e => slice new e.newLo e.newHi) = slice new j j'
  | [], _, _, ⟨rfl, rfl⟩ => ⟨(slice_self old _).symm, (slice_self new _).symm⟩
  | e :: es, _, _, ⟨rfl, rfl, hfit, h⟩ => by
      obtain ⟨ho, hn⟩ := h.flatMap_slice
      rw [List.flatMap_cons, List.flatMap_cons, ho, hn]
      exact ⟨slice_append old hfit.oldLe h.le.1, slice_append new hfit.newLe h.le.2⟩

/-- Edits without a change go over equal lines. -/
theorem Tiles.skips : ∀ {es : List Edit} {i j : Nat}, Tiles old new i j es i' j' →
    (∀ e ∈ es, e.kind = .equal) → Skips old new i j i' j'
  | [], _, _, ⟨rfl, rfl⟩, _ => Skips.refl old new _ _
  | _ :: _, _, _, ⟨rfl, rfl, hfit, h⟩, heq =>
      (hfit.equal (heq _ List.mem_cons_self)).trans
        (h.skips fun e he => heq e (List.mem_cons_of_mem _ he))

theorem tiles_gapEdit (hi : i ≤ i') (hj : j ≤ j') (hold : i' ≤ old.length)
    (hnew : j' ≤ new.length) : Tiles old new i j (gapEdit i i' j j') i' j' := by
  unfold gapEdit
  split
  · exact tiles_singleton ⟨hi, hold, hj, hnew, nofun, nofun, nofun⟩
  · split
    · next h₁ h₂ =>
      refine tiles_singleton ⟨hi, hold, hj, hnew, nofun, fun _ => ?_, nofun⟩
      simp only
      omega
    · split
      · next h₁ h₂ h₃ =>
        refine tiles_singleton ⟨hi, hold, hj, hnew, nofun, nofun, fun _ => ?_⟩
        simp only
        omega
      · next h₁ h₂ h₃ => exact ⟨by omega, by omega⟩

theorem Ordered.le : ∀ {cs : List Common} {i j : Nat}, Ordered old new i j cs i' j' →
    i ≤ i' ∧ j ≤ j'
  | [], _, _, h => h
  | _ :: _, _, _, ⟨hi, hj, _, h⟩ =>
      ⟨Nat.le_trans hi (Nat.le_trans (Nat.le_add_right _ _) h.le.1),
        Nat.le_trans hj (Nat.le_trans (Nat.le_add_right _ _) h.le.2)⟩

theorem editsFrom_tiles : ∀ {cs : List Common} {i j : Nat},
    Ordered old new i j cs old.length new.length →
      Tiles old new i j (editsFrom old.length new.length i j cs) old.length new.length
  | [], _, _, h => tiles_gapEdit h.1 h.2 (Nat.le_refl _) (Nat.le_refl _)
  | c :: cs, i, j, ⟨hi, hj, hc, h⟩ => by
      obtain ⟨hold, hnew⟩ := h.le
      have hgap : Tiles old new i j (gapEdit i c.old j c.new) c.old c.new :=
        tiles_gapEdit hi hj (by omega) (by omega)
      have hequal : Tiles old new c.old c.new
          [⟨.equal, c.old, c.old + c.size, c.new, c.new + c.size⟩] (c.old + c.size)
          (c.new + c.size) :=
        tiles_singleton ⟨Nat.le_add_right _ _, hold, Nat.le_add_right _ _, hnew,
          fun _ => ⟨c.size, rfl, rfl, hc⟩, nofun, nofun⟩
      rw [editsFrom]
      exact tiles_append.mpr ⟨_, _, tiles_append.mpr ⟨_, _, hgap, hequal⟩, editsFrom_tiles h⟩

/-- The edits between two lists of lines go through both from end to end. -/
theorem edits_tiles (old new : List Text) :
    Tiles old new 0 0 (edits old new) old.length new.length :=
  editsFrom_tiles (commonStretches_ordered old new)

/-! ### Context -/

variable {e : Edit} {n : Nat}

theorem Edit.fits_of_skips (hk : e.kind = .equal) (ho : e.oldHi ≤ old.length)
    (hn : e.newHi ≤ new.length) (h : Skips old new e.oldLo e.newLo e.oldHi e.newHi) :
    e.Fits old new := by
  obtain ⟨n, eo, en, -⟩ := id h
  exact ⟨by omega, ho, by omega, hn, fun _ => h, fun h' => (nomatch hk.symm.trans h'),
    fun h' => (nomatch hk.symm.trans h')⟩

theorem Edit.keepEnd_eq (hk : e.kind = .equal) (ho : e.oldHi = e.oldLo + n)
    (hn : e.newHi = e.newLo + n) : e.keepEnd =
      { e with oldLo := e.oldLo + (n - context), newLo := e.newLo + (n - context) } := by
  have e₁ : max e.oldLo (e.oldHi - context) = e.oldLo + (n - context) := by omega
  have e₂ : max e.newLo (e.newHi - context) = e.newLo + (n - context) := by omega
  rw [Edit.keepEnd, if_pos hk, e₁, e₂]

theorem Edit.keepStart_eq (hk : e.kind = .equal) (ho : e.oldHi = e.oldLo + n)
    (hn : e.newHi = e.newLo + n) : e.keepStart =
      { e with oldHi := e.oldLo + min n context, newHi := e.newLo + min n context } := by
  have e₁ : min e.oldHi (e.oldLo + context) = e.oldLo + min n context := by omega
  have e₂ : min e.newHi (e.newLo + context) = e.newLo + min n context := by omega
  rw [Edit.keepStart, if_pos hk, e₁, e₂]

/-- What is cut off before the last lines of an edit without changes is the same in both lists. -/
theorem Edit.Fits.keepEnd (h : e.Fits old new) : e.keepEnd.Fits old new ∧
    Skips old new e.oldLo e.newLo e.keepEnd.oldLo e.keepEnd.newLo ∧
      e.keepEnd.oldHi = e.oldHi ∧ e.keepEnd.newHi = e.newHi := by
  by_cases hk : e.kind = .equal
  · have hskip := h.equal hk
    obtain ⟨n, ho, hn, -⟩ := h.equal hk
    rw [Edit.keepEnd_eq hk ho hn]
    rw [ho, hn] at hskip
    obtain ⟨hcut, hkept⟩ := hskip.cut (Nat.sub_le n context)
    exact ⟨Edit.fits_of_skips hk h.oldEnd h.newEnd (by rwa [← ho, ← hn] at hkept), hcut, rfl, rfl⟩
  · rw [Edit.keepEnd, if_neg hk]
    exact ⟨h, Skips.refl old new _ _, rfl, rfl⟩

/-- What is cut off behind the first lines of an edit without changes is the same in both lists. -/
theorem Edit.Fits.keepStart (h : e.Fits old new) : e.keepStart.Fits old new ∧
    Skips old new e.keepStart.oldHi e.keepStart.newHi e.oldHi e.newHi ∧
      e.keepStart.oldLo = e.oldLo ∧ e.keepStart.newLo = e.newLo := by
  by_cases hk : e.kind = .equal
  · have hskip := h.equal hk
    obtain ⟨n, ho, hn, -⟩ := h.equal hk
    have := h.oldEnd
    have := h.newEnd
    rw [Edit.keepStart_eq hk ho hn]
    rw [ho, hn] at hskip
    obtain ⟨hkept, hcut⟩ := hskip.cut (Nat.min_le_left n context)
    exact ⟨Edit.fits_of_skips hk (by simp only; omega) (by simp only; omega) hkept,
      by rwa [← ho, ← hn] at hcut, rfl, rfl⟩
  · rw [Edit.keepStart, if_neg hk]
    exact ⟨h, Skips.refl old new _ _, rfl, rfl⟩

/-- Between the first and the last lines of a long edit without changes the lines are the same in
both lists. -/
theorem Edit.Fits.skips_between (h : e.Fits old new) (hk : e.kind = .equal)
    (hlong : 2 * context < e.oldHi - e.oldLo) : Skips old new e.keepStart.oldHi e.keepStart.newHi
      e.keepEnd.oldLo e.keepEnd.newLo := by
  have hskip := h.equal hk
  obtain ⟨n, ho, hn, -⟩ := h.equal hk
  rw [Edit.keepStart_eq hk ho hn, Edit.keepEnd_eq hk ho hn]
  rw [ho, hn] at hskip
  exact ((hskip.cut (Nat.sub_le n context)).1.cut (k := min n context) (by omega)).2

/-- With its first edit cut, a list of edits begins behind equal lines. -/
theorem Tiles.keepEnd {es : List Edit} (h : Tiles old new i j (e :: es) i' j') :
    ∃ a b, Skips old new i j a b ∧ Tiles old new a b (e.keepEnd :: es) i' j' := by
  obtain ⟨rfl, rfl, hfit, h⟩ := h
  obtain ⟨hfit, hskip, ho, hn⟩ := hfit.keepEnd
  exact ⟨_, _, hskip, rfl, rfl, hfit, ho ▸ hn ▸ h⟩

/-- With its last edit cut, a list of edits ends before equal lines. -/
theorem Tiles.keepStart {es : List Edit} (h : Tiles old new i j (es ++ [e]) i' j') :
    ∃ a b, Tiles old new i j (es ++ [e.keepStart]) a b ∧ Skips old new a b i' j' := by
  obtain ⟨_, _, hes, rfl, rfl, hfit, rfl, rfl⟩ := tiles_append.mp h
  obtain ⟨hfit, hskip, ho, hn⟩ := hfit.keepStart
  exact ⟨_, _, tiles_append.mpr ⟨_, _, hes, ho, hn, hfit, rfl, rfl⟩, hskip⟩

theorem Tiles.trimEdits {es : List Edit} (h : Tiles old new i j es i' j') :
    ∃ a b a' b', Skips old new i j a b ∧ Tiles old new a b (trimEdits es) a' b' ∧
      Skips old new a' b' i' j' := by
  cases es with
  | nil => exact ⟨i, j, i', j', Skips.refl _ _ _ _, h, Skips.refl _ _ _ _⟩
  | cons e es =>
      obtain ⟨a, b, hskip, h⟩ := h.keepEnd
      rcases List.eq_nil_or_concat es with rfl | ⟨es, last, rfl⟩
      · have hlast : Tiles old new a b ([] ++ [e.keepEnd]) i' j' := h
        obtain ⟨a', b', h, hskip'⟩ := hlast.keepStart
        exact ⟨a, b, a', b', hskip, h, hskip'⟩
      · rw [List.concat_eq_append, ← List.cons_append] at h
        obtain ⟨a', b', h, hskip'⟩ := h.keepStart
        refine ⟨a, b, a', b', hskip, ?_, hskip'⟩
        cases es <;> simpa [Diff.trimEdits] using h

/-! ### Hunks -/

/-- Hunks with equal lines before each of them, from two places to `i'` and `j'`. -/
inductive Hunked (old new : List Text) (i' j' : Nat) : Nat → Nat → List (List Edit) → Prop
  | nil : Hunked old new i' j' i' j' []
  | cons {i j a b a' b' : Nat} {g : List Edit} {gs : List (List Edit)} (skips : Skips old new i j a b)
      (ne_nil : g ≠ []) (tiles : Tiles old new a b g a' b')
      (rest : Hunked old new i' j' a' b' gs) : Hunked old new i' j' i j (g :: gs)

theorem groupEdits_hunked : ∀ {es group : List Edit} {i j a b a' b' i' j' : Nat},
    Skips old new i j a b → Tiles old new a b group a' b' → Tiles old new a' b' es i' j' →
      ∃ m q, Hunked old new m q i j (groupEdits group es) ∧ Skips old new m q i' j'
  | [], group, i, j, a, b, _, _, _, _, hskip, hgroup, ⟨rfl, rfl⟩ => by
      rw [groupEdits, hunkOf]
      split
      · next h =>
        have heq : ∀ e ∈ group, e.kind = .equal := fun e he =>
          of_decide_eq_true (List.all_eq_true.mp h e he)
        exact ⟨i, j, .nil, hskip.trans (hgroup.skips heq)⟩
      · next h =>
        refine ⟨_, _, .cons hskip ?_ hgroup .nil, Skips.refl _ _ _ _⟩
        rintro rfl
        exact h rfl
  | e :: es, group, i, j, a, b, _, _, i', j', hskip, hgroup, ⟨rfl, rfl, hfit, hes⟩ => by
      rw [groupEdits]
      split
      · next h =>
        -- the long edit is cut in two, and the lines between the cuts are left out
        obtain ⟨hstart, -, ho, hn⟩ := hfit.keepStart
        obtain ⟨hend, -, ho', hn'⟩ := hfit.keepEnd
        obtain ⟨m, q, hh, hrest⟩ := groupEdits_hunked (hfit.skips_between h.1 h.2)
          (tiles_singleton hend) (ho' ▸ hn' ▸ hes)
        exact ⟨m, q, .cons hskip (by simp)
          (tiles_append.mpr ⟨_, _, hgroup, ho, hn, hstart, rfl, rfl⟩) hh, hrest⟩
      · exact groupEdits_hunked hskip (tiles_append.mpr ⟨_, _, hgroup, tiles_singleton hfit⟩) hes

theorem Hunked.le {m q : Nat} {gs : List (List Edit)} (h : Hunked old new m q i j gs) :
    i ≤ m ∧ j ≤ q := by
  induction h with
  | nil => exact ⟨Nat.le_refl m, Nat.le_refl q⟩
  | cons hskip _ htiles _ ih =>
      exact ⟨Nat.le_trans hskip.le.1 (Nat.le_trans htiles.le.1 ih.1),
        Nat.le_trans hskip.le.2 (Nat.le_trans htiles.le.2 ih.2)⟩

/-- The hunks, and equal lines before, between and behind them, go through both lists. -/
theorem hunks_hunked (old new : List Text) : ∃ m q, Hunked old new m q 0 0 (hunks old new) ∧
    Skips old new m q old.length new.length := by
  obtain ⟨a, b, a', b', hskip, h, hskip'⟩ := (edits_tiles old new).trimEdits
  have hnone : Tiles old new a b [] a b := ⟨rfl, rfl⟩
  obtain ⟨m, q, hh, hrest⟩ := groupEdits_hunked hskip hnone h
  exact ⟨m, q, hh, hrest.trans hskip'⟩

end SuiteAudit.Diff
