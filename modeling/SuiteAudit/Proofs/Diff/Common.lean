import SuiteAudit.Diff.Matching

/-! # Common stretches agree

What the search for a longest common stretch keeps is true of every state of it: the best stretch so
far lies in the window and its lines are the same in both lists, and so do the runs that end at the
line looked at last (`Search.Sound`).  So the stretches that are found stand one after the other in
both lists (`Ordered`), each with the same lines in both (`commonStretches_ordered`).  That they are
the longest ones plays no part. -/

namespace SuiteAudit.Diff

variable {old new : List Text} {w : Window} {c : Common}

/-! ### Stretches -/

/-- The lines of a stretch are there and the same in both lists. -/
def Common.Agrees (old new : List Text) (c : Common) : Prop :=
  ∀ k < c.size, ∃ l, old[c.old + k]? = some l ∧ new[c.new + k]? = some l

theorem Common.agrees_empty (old new : List Text) (i j : Nat) : Common.Agrees old new ⟨i, j, 0⟩ :=
  fun k hk => absurd hk (Nat.not_lt_zero k)

/-- The stretch lies in a window. -/
structure Common.Within (w : Window) (c : Common) : Prop where
  oldLo : w.oldLo ≤ c.old
  oldHi : c.old + c.size ≤ w.oldHi
  newLo : w.newLo ≤ c.new
  newHi : c.new + c.size ≤ w.newHi

/-- A stretch with one line more behind it. -/
theorem Common.Agrees.concat (h : c.Agrees old new) {l : Text}
    (ho : old[c.old + c.size]? = some l) (hn : new[c.new + c.size]? = some l) :
    Common.Agrees old new ⟨c.old, c.new, c.size + 1⟩ := by
  intro k hk
  obtain hk | rfl : k < c.size ∨ k = c.size := Nat.lt_succ_iff_lt_or_eq.mp hk
  · exact h k hk
  · exact ⟨l, ho, hn⟩

/-- A stretch with one line more before it. -/
theorem Common.Agrees.cons (h : c.Agrees old new) {l : Text} (hold : 0 < c.old) (hnew : 0 < c.new)
    (ho : old[c.old - 1]? = some l) (hn : new[c.new - 1]? = some l) :
    Common.Agrees old new ⟨c.old - 1, c.new - 1, c.size + 1⟩ := by
  intro k hk
  cases k with
  | zero => exact ⟨l, ho, hn⟩
  | succ k =>
      obtain ⟨l, ho, hn⟩ := h k (Nat.lt_of_succ_lt_succ hk)
      refine ⟨l, ?_, ?_⟩
      · rw [← ho]
        congr 1
        simp only
        omega
      · rw [← hn]
        congr 1
        simp only
        omega

/-- Two stretches that touch, as one. -/
theorem Common.Agrees.append {d : Common} (h : c.Agrees old new) (h' : d.Agrees old new)
    (ho : c.old + c.size = d.old) (hn : c.new + c.size = d.new) :
    Common.Agrees old new ⟨c.old, c.new, c.size + d.size⟩ := by
  intro k hk
  by_cases hc : k < c.size
  · exact h k hc
  · obtain ⟨m, rfl⟩ : ∃ m, k = c.size + m := ⟨k - c.size, by omega⟩
    obtain ⟨l, hold, hnew⟩ := h' m (by simp only at hk; omega)
    refine ⟨l, ?_, ?_⟩
    · rw [← hold, ← ho, Nat.add_assoc]
    · rw [← hnew, ← hn, Nat.add_assoc]

/-! ### The search in a window -/

theorem getElem?_of_mem_placesOf {line : Text} {place : Nat} (h : place ∈ placesOf new line) :
    new[place]? = some line := by
  unfold placesOf at h
  simp only at h
  split at h
  · cases h
  · obtain ⟨p, hp, rfl⟩ := List.mem_map.mp h
    obtain ⟨hm, hl⟩ := List.mem_filter.mp hp
    rw [← of_decide_eq_true hl]
    exact List.mem_zipIdx_iff_getElem?.mp hm

namespace Search

/-- What a run says: so many lines before the old line `n`, and up to a place of the new list, are
the same. -/
structure IsRun (old new : List Text) (w : Window) (n : Nat) (p : Nat × Nat) : Prop where
  oldLo : w.oldLo + p.2 ≤ n
  newLo : w.newLo + p.2 ≤ p.1 + 1
  agrees : Common.Agrees old new ⟨n - p.2, p.1 + 1 - p.2, p.2⟩

/-- What is true of the search when the old lines before `n` have been looked at. -/
structure Sound (old new : List Text) (w : Window) (n : Nat) (s : Search) : Prop where
  within : s.best.Within w
  agrees : s.best.Agrees old new
  runs : ∀ p ∈ s.runs, IsRun old new w n p

/-- The run that ends right before a place, or an empty one. -/
theorem isRun_runBefore {runs : List (Nat × Nat)} {n place : Nat}
    (h : ∀ p ∈ runs, IsRun old new w n p) (hn : w.oldLo ≤ n) (hp : w.newLo ≤ place) :
    w.oldLo + runBefore runs place ≤ n ∧ w.newLo + runBefore runs place ≤ place ∧
      Common.Agrees old new
        ⟨n - runBefore runs place, place - runBefore runs place, runBefore runs place⟩ := by
  have hempty : runBefore runs place = 0 → w.oldLo + runBefore runs place ≤ n ∧
      w.newLo + runBefore runs place ≤ place ∧ Common.Agrees old new
        ⟨n - runBefore runs place, place - runBefore runs place, runBefore runs place⟩ := by
    intro e
    rw [e]
    exact ⟨hn, hp, Common.agrees_empty old new _ _⟩
  cases place with
  | zero => exact hempty rfl
  | succ place =>
      cases hl : runs.lookup place with
      | none => exact hempty (by rw [runBefore, hl]; rfl)
      | some k =>
          obtain ⟨l₁, l₂, e, -⟩ := List.lookup_eq_some_iff.mp hl
          have hrun := h (place, k) (by rw [e]; exact List.mem_append_right l₁ List.mem_cons_self)
          have hk : runBefore runs (place + 1) = k := by rw [runBefore, hl]; rfl
          rw [hk]
          exact ⟨hrun.oldLo, hrun.newLo, hrun.agrees⟩

theorem Sound.meet {runs : List (Nat × Nat)} {i place : Nat} {l : Text} {s : Search}
    (h : Sound old new w (i + 1) s) (hruns : ∀ p ∈ runs, IsRun old new w i p)
    (hlo : w.oldLo ≤ i) (hhi : i < w.oldHi) (hplo : w.newLo ≤ place) (hphi : place < w.newHi)
    (ho : old[i]? = some l) (hn : new[place]? = some l) :
    Sound old new w (i + 1) (Search.meet runs i s place) := by
  obtain ⟨hold, hnew, hagrees⟩ := isRun_runBefore hruns hlo hplo
  have hlong : Common.Agrees old new ⟨i + 1 - (runBefore runs place + 1),
      place + 1 - (runBefore runs place + 1), runBefore runs place + 1⟩ := by
    rw [Nat.add_sub_add_right, Nat.add_sub_add_right]
    refine hagrees.concat (l := l) ?_ ?_
    · rw [← ho]
      congr 1
      simp only
      omega
    · rw [← hn]
      congr 1
      simp only
      omega
  have hbest : (Search.meet runs i s place).best.Within w ∧
      (Search.meet runs i s place).best.Agrees old new := by
    simp only [Search.meet]
    split
    · exact ⟨⟨by simp only; omega, by simp only; omega, by simp only; omega, by simp only; omega⟩,
        hlong⟩
    · exact ⟨h.within, h.agrees⟩
  refine ⟨hbest.1, hbest.2, ?_⟩
  simp only [Search.meet]
  refine List.forall_mem_cons.mpr ⟨⟨?_, ?_, hlong⟩, h.runs⟩
  · simp only
    omega
  · simp only
    omega

theorem Sound.foldl_meet {runs : List (Nat × Nat)} {i : Nat} {l : Text}
    (hruns : ∀ p ∈ runs, IsRun old new w i p) (hlo : w.oldLo ≤ i) (hhi : i < w.oldHi)
    (ho : old[i]? = some l) : ∀ (places : List Nat) {s : Search}, Sound old new w (i + 1) s →
      (∀ place ∈ places, (w.newLo ≤ place ∧ place < w.newHi) ∧ new[place]? = some l) →
      Sound old new w (i + 1) (places.foldl (Search.meet runs i) s)
  | [], _, h, _ => h
  | place :: places, s, h, hp => by
      obtain ⟨⟨⟨hplo, hphi⟩, hn⟩, hp⟩ := List.forall_mem_cons.mp hp
      exact foldl_meet hruns hlo hhi ho places (h.meet hruns hlo hhi hplo hphi ho hn) hp

/-- One old line more. -/
theorem Sound.step {i : Nat} {l : Text} {s : Search} (h : Sound old new w i s) (hlo : w.oldLo ≤ i)
    (hhi : i < w.oldHi) (ho : old[i]? = some l) :
    Sound old new w (i + 1) (Search.step w s (placesOf new l, i)) := by
  have hstart : Sound old new w (i + 1) ⟨s.best, []⟩ :=
    ⟨h.within, h.agrees, fun p hp => by cases hp⟩
  refine hstart.foldl_meet h.runs hlo hhi ho _ fun place hp => ?_
  obtain ⟨hm, hin⟩ := List.mem_filter.mp hp
  exact ⟨by simpa using hin, getElem?_of_mem_placesOf hm⟩

theorem Sound.foldl_step : ∀ (ps : List (List Nat × Nat)) {i : Nat} {s : Search},
    Sound old new w i s → w.oldLo ≤ i → i + ps.length ≤ w.oldHi →
    (∀ m p, ps[m]? = some p → ∃ l, old[i + m]? = some l ∧ p = (placesOf new l, i + m)) →
    Sound old new w (i + ps.length) (ps.foldl (Search.step w) s)
  | [], _, _, h, _, _, _ => h
  | p :: ps, i, s, h, hlo, hhi, hp => by
      rw [List.length_cons] at hhi ⊢
      obtain ⟨l, ho, rfl⟩ := hp 0 p rfl
      rw [Nat.add_comm ps.length, ← Nat.add_assoc]
      refine foldl_step ps (h.step hlo (by omega) ho) (by omega) (by omega) fun m q hq => ?_
      obtain ⟨l', ho', rfl⟩ := hp (m + 1) q hq
      have e : i + (m + 1) = i + 1 + m := by omega
      exact ⟨l', e ▸ ho', by rw [e]⟩

end Search

/-! ### The longest stretch -/

theorem same_iff {i j : Nat} : (Sides.ofLists old new).same i j = true ↔
    ∃ l, old[i]? = some l ∧ new[j]? = some l := by
  unfold Sides.same Sides.ofLists
  simp only [List.getElem?_toArray]
  cases old[i]? <;> cases new[j]? <;> simp [eq_comm]

theorem growLeft_sound : ∀ (limit : Nat) {c : Common}, c.Within w → c.Agrees old new →
    ((Sides.ofLists old new).growLeft w limit c).Within w ∧
      ((Sides.ofLists old new).growLeft w limit c).Agrees old new
  | 0, _, hw, ha => ⟨hw, ha⟩
  | limit + 1, c, hw, ha => by
      rw [Sides.growLeft]
      split
      · next h =>
        obtain ⟨hold, hnew, hsame⟩ := h
        obtain ⟨l, ho, hn⟩ := same_iff.mp hsame
        have := hw.oldHi
        have := hw.newHi
        refine growLeft_sound limit ⟨?_, ?_, ?_, ?_⟩
          (ha.cons (Nat.zero_lt_of_lt hold) (Nat.zero_lt_of_lt hnew) ho hn) <;>
        · simp only
          omega
      · exact ⟨hw, ha⟩

theorem growRight_sound : ∀ (limit : Nat) {c : Common}, c.Within w → c.Agrees old new →
    ((Sides.ofLists old new).growRight w limit c).Within w ∧
      ((Sides.ofLists old new).growRight w limit c).Agrees old new
  | 0, _, hw, ha => ⟨hw, ha⟩
  | limit + 1, c, hw, ha => by
      rw [Sides.growRight]
      split
      · next h =>
        obtain ⟨hold, hnew, hsame⟩ := h
        obtain ⟨l, ho, hn⟩ := same_iff.mp hsame
        refine growRight_sound limit ⟨hw.oldLo, ?_, hw.newLo, ?_⟩ (ha.concat ho hn) <;>
        · simp only
          omega
      · exact ⟨hw, ha⟩

/-- The stretch that is found lies in its window, and its lines agree. -/
theorem longest_sound (old new : List Text) (hold : w.oldLo ≤ w.oldHi) (hnew : w.newLo ≤ w.newHi) :
    ((Sides.ofLists old new).longest w).Within w ∧
      ((Sides.ofLists old new).longest w).Agrees old new := by
  have hstart : Search.Sound old new w w.oldLo ⟨⟨w.oldLo, w.newLo, 0⟩, []⟩ :=
    ⟨⟨Nat.le_refl _, hold, Nat.le_refl _, hnew⟩, Common.agrees_empty old new _ _,
      fun p hp => by cases hp⟩
  have hfold := hstart.foldl_step
    (((Sides.ofLists old new).places.drop w.oldLo).take (w.oldHi - w.oldLo)) (Nat.le_refl _)
    (by have := List.length_take_le (w.oldHi - w.oldLo)
          ((Sides.ofLists old new).places.drop w.oldLo)
        omega)
    (fun m p hp => by
      rw [List.getElem?_take] at hp
      split at hp
      · rw [List.getElem?_drop] at hp
        obtain ⟨ps, hps, rfl⟩ := Option.map_eq_some_iff.mp
          (List.getElem?_zipIdx (l := old.map (placesOf new)) ▸ hp)
        obtain ⟨l, ho, rfl⟩ := Option.map_eq_some_iff.mp (List.getElem?_map ▸ hps)
        exact ⟨l, ho, by rw [Nat.zero_add]⟩
      · cases hp)
  obtain ⟨hw, ha⟩ := growLeft_sound w.oldHi hfold.within hfold.agrees
  exact growRight_sound w.oldHi hw ha

/-! ### All stretches -/

/-- Stretches that agree and stand one after the other in both lists, between two pairs of places. -/
def Ordered (old new : List Text) : Nat → Nat → List Common → Nat → Nat → Prop
  | i, j, [], i', j' => i ≤ i' ∧ j ≤ j'
  | i, j, c :: cs, i', j' => i ≤ c.old ∧ j ≤ c.new ∧ c.Agrees old new ∧
      Ordered old new (c.old + c.size) (c.new + c.size) cs i' j'

theorem Ordered.mono {i j i₁ j₁ i' j' : Nat} {cs : List Common}
    (h : Ordered old new i₁ j₁ cs i' j') (hi : i ≤ i₁) (hj : j ≤ j₁) :
    Ordered old new i j cs i' j' := by
  cases cs with
  | nil => exact ⟨Nat.le_trans hi h.1, Nat.le_trans hj h.2⟩
  | cons c cs => exact ⟨Nat.le_trans hi h.1, Nat.le_trans hj h.2.1, h.2.2⟩

theorem Ordered.append {i₁ j₁ i' j' : Nat} {ds : List Common} :
    ∀ {cs : List Common} {i j : Nat}, Ordered old new i j cs i₁ j₁ →
      Ordered old new i₁ j₁ ds i' j' → Ordered old new i j (cs ++ ds) i' j'
  | [], _, _, h, h' => h'.mono h.1 h.2
  | _ :: _, _, _, h, h' => ⟨h.1, h.2.1, h.2.2.1, h.2.2.2.append h'⟩

theorem commonIn_ordered : ∀ (limit : Nat) {w : Window}, w.oldLo ≤ w.oldHi → w.newLo ≤ w.newHi →
    Ordered old new w.oldLo w.newLo ((Sides.ofLists old new).commonIn limit w) w.oldHi w.newHi
  | 0, _, hold, hnew => ⟨hold, hnew⟩
  | limit + 1, w, hold, hnew => by
      obtain ⟨hw, ha⟩ := longest_sound old new hold hnew
      rw [Sides.commonIn]
      generalize (Sides.ofLists old new).longest w = c at hw ha
      split
      · exact ⟨hold, hnew⟩
      · have hleft := commonIn_ordered limit (w := ⟨w.oldLo, c.old, w.newLo, c.new⟩) hw.oldLo hw.newLo
        have hright := commonIn_ordered limit
          (w := ⟨c.old + c.size, w.oldHi, c.new + c.size, w.newHi⟩) hw.oldHi hw.newHi
        refine Ordered.append (hleft.append ?_) hright
        exact ⟨Nat.le_refl _, Nat.le_refl _, ha, Nat.le_refl _, Nat.le_refl _⟩

/-- Stretches that touch are joined to one that agrees. -/
theorem Ordered.joinCommon {i j i' j' : Nat} {cs : List Common}
    (h : Ordered old new i j (c :: cs) i' j') : Ordered old new i j (joinCommon c cs) i' j' := by
  cases cs with
  | nil => exact h
  | cons d cs =>
      rw [Diff.joinCommon]
      split
      · next e =>
        obtain ⟨hi, hj, hc, -, -, hd, hrest⟩ := h
        refine ⟨hi, hj, hc.append hd e.1 e.2, ?_⟩
        rw [← e.1, ← e.2, Nat.add_assoc, Nat.add_assoc] at hrest
        exact hrest
      · exact h

theorem Ordered.foldr_joinCommon {i' j' : Nat} : ∀ {cs : List Common} {i j : Nat},
    Ordered old new i j cs i' j' → Ordered old new i j (cs.foldr Diff.joinCommon []) i' j'
  | [], _, _, h => h
  | _ :: _, _, _, ⟨hi, hj, hc, hrest⟩ =>
      Ordered.joinCommon ⟨hi, hj, hc, hrest.foldr_joinCommon⟩

/-- The common stretches of two lists of lines agree and stand one after the other in both. -/
theorem commonStretches_ordered (old new : List Text) :
    Ordered old new 0 0 (commonStretches old new) old.length new.length :=
  (commonIn_ordered (old.length + 1) (w := ⟨0, old.length, 0, new.length⟩) (Nat.zero_le _)
    (Nat.zero_le _)).foldr_joinCommon

end SuiteAudit.Diff
