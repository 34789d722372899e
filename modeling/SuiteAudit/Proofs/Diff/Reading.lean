import SuiteAudit.Proofs.Diff.Hunks
import SuiteAudit.Proofs.Diff.Patch
import SuiteAudit.Proofs.Text.Lines

/-! # A diff is read back

A line of a diff is written without its line feed, and is read with one whether it had it or not
(`fed`).  Apart from that a diff of two texts is read as it is written: its hunks are those of the
edits, with the places and the sizes that they have in both lists of lines (`read?_unified`). -/

namespace SuiteAudit.Diff

open Patch (Mark oldLines newLines written)

variable {old new : List Text}

/-! ### Ends of lines -/

/-- A line as it is read from a diff. -/
def fed (l : Text) : Text := Text.dropEnding "\n" l ++ ['\n']

theorem dropEnding_concat (l : Text) (c : Char) :
    Text.dropEnding "\n" (l ++ [c]) = if c = '\n' then l else l ++ [c] := by
  have h : List.isSuffixOf ("\n" : Text) (l ++ [c]) = true ↔ c = '\n' := by
    rw [List.isSuffixOf_iff_suffix]
    constructor
    · rintro ⟨s, e⟩
      exact (List.cons.inj (List.append_inj_right' e rfl)).1.symm
    · rintro rfl
      exact List.suffix_append l ['\n']
  rw [Text.dropEnding]
  simp only [h]
  split
  · rw [List.length_append]
    exact List.take_left' (Nat.add_sub_cancel _ _).symm
  · rfl

theorem fed_eq_ite (l : Text) : fed l = if l.getLast? = some '\n' then l else l ++ ['\n'] := by
  rcases List.eq_nil_or_concat l with rfl | ⟨l, c, rfl⟩
  · rfl
  · rw [fed, List.concat_eq_append, dropEnding_concat, List.getLast?_concat]
    simp only [Option.some.injEq]
    split
    · next hc => rw [hc]
    · rfl

theorem fed_eq_self_iff {l : Text} : fed l = l ↔ l.getLast? = some '\n' := by
  rw [fed_eq_ite]
  split
  · next h => exact ⟨fun _ => h, fun _ => rfl⟩
  · next h => exact ⟨fun e => absurd e (by simp), fun e => absurd e h⟩

/-- A character in front that is no line feed stays where it is. -/
theorem dropEnding_cons {c : Char} (hc : c ≠ '\n') (l : Text) :
    Text.dropEnding "\n" (c :: l) = c :: Text.dropEnding "\n" l := by
  rcases List.eq_nil_or_concat l with rfl | ⟨l, d, rfl⟩
  · exact (dropEnding_concat [] c).trans (if_neg hc)
  · rw [List.concat_eq_append, ← List.cons_append, dropEnding_concat, dropEnding_concat]
    split <;> rfl

theorem dropEnding_of_not_mem {l : Text} (h : '\n' ∉ l) : Text.dropEnding "\n" l = l := by
  rcases List.eq_nil_or_concat l with rfl | ⟨l, c, rfl⟩
  · rfl
  · rw [List.concat_eq_append] at h ⊢
    rw [dropEnding_concat, if_neg]
    rintro rfl
    exact h (List.mem_append_right l List.mem_cons_self)

/-- Only at its end has a line a line feed. -/
theorem not_mem_dropEnding_of_mem_wideLines (t : Text) :
    ∀ l ∈ Text.wideLines t, '\n' ∉ Text.dropEnding "\n" l := by
  fun_induction Text.wideLines t with
  | case1 => exact List.forall_mem_nil _
  | case2 rest ih => exact List.forall_mem_cons.mpr ⟨by decide, ih⟩
  | case3 c rest h he ih =>
      refine List.forall_mem_cons.mpr ⟨?_, ih⟩
      rw [← List.nil_append [c], dropEnding_concat]
      split
      · exact List.not_mem_nil
      · next hc => simpa using Ne.symm hc
  | case4 c rest h he ih =>
      have hc : c ≠ '\n' := by
        rintro rfl
        exact he (by decide)
      have hcons : ∀ {l : Text}, '\n' ∉ Text.dropEnding "\n" l →
          '\n' ∉ Text.dropEnding "\n" (c :: l) := by
        intro l hl
        rw [dropEnding_cons hc, List.mem_cons, not_or]
        exact ⟨hc.symm, hl⟩
      cases hw : Text.wideLines rest with
      | nil => exact List.forall_mem_cons.mpr ⟨hcons List.not_mem_nil, List.forall_mem_nil _⟩
      | cons l ls =>
          rw [hw] at ih
          obtain ⟨hl, hls⟩ := List.forall_mem_cons.mp ih
          exact List.forall_mem_cons.mpr ⟨hcons hl, hls⟩

/-! ### The lines of a hunk -/

/-- The lines of an edit with their marks. -/
def Edit.marks (old new : List Text) (e : Edit) : List (Mark × Text) :=
  match e.kind with
  | .equal => (slice old e.oldLo e.oldHi).map (Mark.keep, ·)
  | .replace => (slice old e.oldLo e.oldHi).map (Mark.remove, ·) ++
      (slice new e.newLo e.newHi).map (Mark.add, ·)
  | .delete => (slice old e.oldLo e.oldHi).map (Mark.remove, ·)
  | .insert => (slice new e.newLo e.newHi).map (Mark.add, ·)

theorem editLines_eq (old new : List Text) (e : Edit) :
    editLines old new e = (e.marks old new).map written := by
  unfold editLines Edit.marks marked
  cases e.kind <;> simp only [List.map_append, List.map_map] <;> rfl

theorem oldLines_append (ms ms' : List (Mark × Text)) :
    oldLines (ms ++ ms') = oldLines ms ++ oldLines ms' := by
  simp only [oldLines, List.filter_append, List.map_append]

theorem newLines_append (ms ms' : List (Mark × Text)) :
    newLines (ms ++ ms') = newLines ms ++ newLines ms' := by
  simp only [newLines, List.filter_append, List.map_append]

theorem oldLines_map (m : Mark) (ls : List Text) :
    oldLines (ls.map (m, ·)) = if m.inOld then ls else [] := by
  cases m <;> simp [oldLines, Mark.inOld, List.filter_map, Function.comp_def]

theorem newLines_map (m : Mark) (ls : List Text) :
    newLines (ls.map (m, ·)) = if m.inNew then ls else [] := by
  cases m <;> simp [newLines, Mark.inNew, List.filter_map, Function.comp_def]

/-- An edit that fits shows its stretch of the old list, and that of the new one. -/
theorem Edit.Fits.lines_marks {e : Edit} (h : e.Fits old new) :
    oldLines (e.marks old new) = slice old e.oldLo e.oldHi ∧
      newLines (e.marks old new) = slice new e.newLo e.newHi := by
  unfold Edit.marks
  cases hk : e.kind with
  | equal =>
      simp only [oldLines_map, newLines_map]
      exact ⟨rfl, (h.equal hk).slice_eq⟩
  | replace =>
      simp only [oldLines_append, newLines_append, oldLines_map, newLines_map]
      exact ⟨List.append_nil _, rfl⟩
  | delete =>
      simp only [oldLines_map, newLines_map, h.delete hk, slice_self]
      exact ⟨rfl, rfl⟩
  | insert =>
      simp only [oldLines_map, newLines_map, h.insert hk, slice_self]
      exact ⟨rfl, rfl⟩

/-- The lines of some edits with their marks. -/
def marksOf (old new : List Text) (g : List Edit) : List (Mark × Text) :=
  g.flatMap (Edit.marks old new)

variable {i j i' j' : Nat}

theorem Tiles.lines_marksOf {g : List Edit} (h : Tiles old new i j g i' j') :
    oldLines (marksOf old new g) = slice old i i' ∧
      newLines (marksOf old new g) = slice new j j' := by
  obtain ⟨ho, hn⟩ := h.flatMap_slice
  rw [← ho, ← hn]
  simp only [marksOf, oldLines, newLines, List.filter_flatMap, List.map_flatMap]
  exact ⟨List.flatMap_congr fun e he => (h.fits e he).lines_marks.1,
    List.flatMap_congr fun e he => (h.fits e he).lines_marks.2⟩

/-! ### A hunk is read -/

/-- Where a hunk lies in the old list. -/
def oldRange (g : List Edit) : Patch.Range :=
  ⟨(g.head?.map (·.oldLo)).getD 0,
    (g.getLast?.map (·.oldHi)).getD 0 - (g.head?.map (·.oldLo)).getD 0⟩

/-- Where a hunk lies in the new list. -/
def newRange (g : List Edit) : Patch.Range :=
  ⟨(g.head?.map (·.newLo)).getD 0,
    (g.getLast?.map (·.newHi)).getD 0 - (g.head?.map (·.newLo)).getD 0⟩

/-- A hunk as it is read. -/
def readHunk (old new : List Text) (g : List Edit) : Patch.Hunk :=
  ⟨⟨oldRange g, newRange g⟩, (marksOf old new g).map (Prod.map id fed)⟩

theorem Tiles.range_eq {g : List Edit} (h : Tiles old new i j g i' j') (hne : g ≠ []) :
    oldRange g = ⟨i, i' - i⟩ ∧ newRange g = ⟨j, j' - j⟩ := by
  obtain ⟨e, he⟩ := Option.isSome_iff_exists.mp (List.isSome_head?.mpr hne)
  obtain ⟨d, hd⟩ := Option.isSome_iff_exists.mp (List.getLast?_isSome.mpr hne)
  obtain ⟨ho, hn⟩ := h.head e he
  obtain ⟨ho', hn'⟩ := h.getLast d hd
  simp only [oldRange, newRange, he, hd, Option.map_some, Option.getD_some, ho, hn, ho', hn',
    and_self]

/-- A range is read up to a character that cannot belong to it. -/
theorem readRange_rangeText (lo hi : Nat) {c : Char} (hc : c.isDigit = false) (hcomma : c ≠ ',')
    (t : Text) : Patch.readRange (rangeText lo hi ++ c :: t) = some (⟨lo, hi - lo⟩, c :: t) := by
  have hstop : ∀ d ∈ (c :: t).head?, d.isDigit = false := by
    rintro d ⟨⟩
    exact hc
  rw [Patch.readRange, rangeText]
  split
  · next h =>
    rw [Patch.readNumber_ofNat _ hstop, Option.bind_some, h]
    split
    · next e => exact absurd (List.cons.inj e).1 hcomma
    · rfl
  · have hsep : ∀ d ∈ ((",".toList ++ Text.ofNat (hi - lo)) ++ c :: t).head?, d.isDigit = false := by
      rintro d ⟨⟩
      rfl
    rw [List.append_assoc (Text.ofNat _), List.append_assoc (Text.ofNat _),
      Patch.readNumber_ofNat _ hsep, Option.bind_some, List.append_assoc]
    simp only [String.reduceToList, List.cons_append, List.nil_append,
      Patch.readNumber_ofNat _ hstop, Option.map_some, Patch.Range.ofNumbers]
    split <;> rfl

theorem dropPrefix?_append (p t : Text) : (p ++ t).dropPrefix? p = some t :=
  List.dropPrefix?_append_of_beq t (BEq.refl p)

/-- The head of a hunk as a text, with the numbers that its ranges have. -/
theorem hunkHead_eq (g : List Edit) : ∃ oldLo oldHi newLo newHi,
    hunkHead g = "@@ -".toList ++ rangeText oldLo oldHi ++ " +".toList ++ rangeText newLo newHi ++
        " @@".toList ∧
      oldRange g = ⟨oldLo, oldHi - oldLo⟩ ∧ newRange g = ⟨newLo, newHi - newLo⟩ :=
  ⟨_, _, _, _, rfl, rfl, rfl⟩

theorem readHead_hunkHead (g : List Edit) :
    Patch.readHead (hunkHead g ++ ['\n']) = some ⟨oldRange g, newRange g⟩ := by
  have hold : ∀ (lo hi : Nat) (t : Text), Patch.readRange (rangeText lo hi ++ (" +".toList ++ t)) =
      some (⟨lo, hi - lo⟩, " +".toList ++ t) := fun lo hi t =>
    readRange_rangeText lo hi (by decide) (by decide) ('+' :: t)
  have hnew : ∀ (lo hi : Nat) (t : Text), Patch.readRange (rangeText lo hi ++ (" @@".toList ++ t)) =
      some (⟨lo, hi - lo⟩, " @@".toList ++ t) := fun lo hi t =>
    readRange_rangeText lo hi (by decide) (by decide) ("@@".toList ++ t)
  obtain ⟨oldLo, oldHi, newLo, newHi, hhead, ho, hn⟩ := hunkHead_eq g
  simp only [hhead, Patch.readHead, List.append_assoc, dropPrefix?_append, Option.bind_some, hold,
    hnew, Option.map_some, ho, hn]

/-! ### The hunks are read -/

/-- A line of a hunk with its mark, as it is read. -/
theorem fed_written (p : Mark × Text) : fed (written p) = written (Prod.map id fed p) := by
  have hc : p.1.char ≠ '\n' := by cases p.1 <;> decide
  rw [fed, written, dropEnding_cons hc]
  rfl

theorem newline_not_mem_hunkHead (g : List Edit) : '\n' ∉ hunkHead g := by
  have hnum : ∀ n, '\n' ∉ Text.ofNat n := fun n h =>
    absurd (Nat.isDigit_of_mem_toDigits (by decide) (by decide) h) (by decide)
  have hrange : ∀ lo hi, '\n' ∉ rangeText lo hi := by
    intro lo hi
    unfold rangeText
    split <;> simp [hnum]
  obtain ⟨oldLo, oldHi, newLo, newHi, hhead, -⟩ := hunkHead_eq g
  simp [hhead, hrange]

/-- A hunk as it is read: its head, and its lines with their marks. -/
theorem map_fed_hunkLines (old new : List Text) (g : List Edit) :
    (hunkLines old new g).map fed =
      (hunkHead g ++ ['\n']) :: (readHunk old new g).lines.map written := by
  have hlines : g.flatMap (editLines old new) = (marksOf old new g).map written := by
    rw [marksOf, List.map_flatMap]
    exact List.flatMap_congr fun e _ => editLines_eq old new e
  rw [hunkLines, List.map_cons, fed, dropEnding_of_not_mem (newline_not_mem_hunkHead g), hlines,
    readHunk, List.map_map, List.map_map]
  exact congrArg _ (List.map_congr_left fun p _ => fed_written p)

/-- The lines of a hunk as they are read show the lines of both lists, each with an end. -/
theorem Tiles.lines_readHunk {g : List Edit} (h : Tiles old new i j g i' j') :
    oldLines (readHunk old new g).lines = (slice old i i').map fed ∧
      newLines (readHunk old new g).lines = (slice new j j').map fed := by
  obtain ⟨ho, hn⟩ := h.lines_marksOf
  rw [← ho, ← hn, readHunk, oldLines, newLines, List.filter_map, List.filter_map]
  simp only [List.map_map, oldLines, newLines]
  exact ⟨rfl, rfl⟩

theorem Tiles.le_length {g : List Edit} (h : Tiles old new i j g i' j') (hne : g ≠ []) :
    i' ≤ old.length ∧ j' ≤ new.length := by
  obtain ⟨e, he⟩ := Option.isSome_iff_exists.mp (List.getLast?_isSome.mpr hne)
  obtain ⟨rfl, rfl⟩ := h.getLast e he
  have hfit := h.fits e (List.mem_of_getLast? he)
  exact ⟨hfit.oldEnd, hfit.newEnd⟩

/-- Hunks are read from their lines. -/
theorem Hunked.readFrom {m q : Nat} {gs : List (List Edit)} (h : Hunked old new m q i j gs) :
    Patch.readFrom 0 0 ((gs.flatMap (hunkLines old new)).map fed) =
      some ([], gs.map (readHunk old new)) := by
  induction h with
  | nil => rfl
  | @cons i j a b a' b' g gs _ hne htiles _ ih =>
      obtain ⟨hold, hnew⟩ := htiles.lines_readHunk
      obtain ⟨hor, hnr⟩ := htiles.range_eq hne
      obtain ⟨hol, hnl⟩ := htiles.le_length hne
      have hos : (oldRange g).size = (oldLines (readHunk old new g).lines).length + 0 := by
        rw [hold, List.length_map, length_slice hol, hor, Nat.add_zero]
      have hns : (newRange g).size = (newLines (readHunk old new g).lines).length + 0 := by
        rw [hnew, List.length_map, length_slice hnl, hnr, Nat.add_zero]
      rw [List.flatMap_cons, List.map_append, map_fed_hunkLines, List.cons_append, Patch.readFrom,
        if_pos ⟨rfl, rfl⟩, readHead_hunkHead, Option.bind_some]
      simp only [hos, hns]
      rw [Patch.readFrom_written, ih, Option.map_some, Option.map_some, List.append_nil]
      rfl

/-! ### The diff is read -/

/-- A line of a diff: behind its first character, only its end may be a line feed. -/
def IsShown (l : Text) : Prop :=
  ∃ c t, l = c :: t ∧ c ≠ '\n' ∧ c ≠ '\\' ∧ '\n' ∉ Text.dropEnding "\n" t

theorem IsShown.not_mem {l : Text} (h : IsShown l) : '\n' ∉ Text.dropEnding "\n" l := by
  obtain ⟨c, t, rfl, hc, -, ht⟩ := h
  rw [dropEnding_cons hc, List.mem_cons, not_or]
  exact ⟨hc.symm, ht⟩

/-- It is no remark that the line before has no line feed. -/
theorem IsShown.not_noEnd {l : Text} (h : IsShown l) : ¬ Patch.noEnd <+: Text.dropEnding "\n" l := by
  obtain ⟨c, t, rfl, hc, hslash, -⟩ := h
  rw [dropEnding_cons hc]
  rintro ⟨s, e⟩
  exact hslash (List.cons.inj e).1.symm

theorem isShown_of_not_mem {c : Char} {t : Text} (hslash : c ≠ '\\') (h : '\n' ∉ c :: t) :
    IsShown (c :: t) := by
  obtain ⟨hc, ht⟩ := not_or.mp fun e => h (List.mem_cons.mpr e)
  exact ⟨c, t, rfl, Ne.symm hc, hslash, by rwa [dropEnding_of_not_mem ht]⟩

/-- The lines of a diff are read with an end each. -/
theorem closed_lines_joinLines {ls : List Text} (hne : ls ≠ []) (h : ∀ l ∈ ls, IsShown l) :
    Patch.closed (Text.lines (Text.joinLines (ls.map (Text.dropEnding "\n")))) = ls.map fed := by
  rw [Text.lines_joinLines (by simpa using hne) (List.forall_mem_map.mpr fun l hl => (h l hl).not_mem),
    Patch.closed_eq_map (List.forall_mem_map.mpr fun l hl => (h l hl).not_noEnd), List.map_map]
  rfl

theorem mem_slice {ls : List Text} {lo hi : Nat} {l : Text} (h : l ∈ slice ls lo hi) : l ∈ ls :=
  List.mem_of_mem_drop (List.mem_of_mem_take h)

theorem mem_of_mem_marks {e : Edit} {p : Mark × Text} (h : p ∈ e.marks old new) :
    p.2 ∈ old ∨ p.2 ∈ new := by
  have hold : ∀ m, p ∈ (slice old e.oldLo e.oldHi).map (Prod.mk m) → p.2 ∈ old ∨ p.2 ∈ new := by
    intro m hp
    obtain ⟨l, hl, rfl⟩ := List.mem_map.mp hp
    exact .inl (mem_slice hl)
  have hnew : ∀ m, p ∈ (slice new e.newLo e.newHi).map (Prod.mk m) → p.2 ∈ old ∨ p.2 ∈ new := by
    intro m hp
    obtain ⟨l, hl, rfl⟩ := List.mem_map.mp hp
    exact .inr (mem_slice hl)
  unfold Edit.marks at h
  split at h
  · exact hold _ h
  · exact (List.mem_append.mp h).elim (hold _) (hnew _)
  · exact hold _ h
  · exact hnew _ h

theorem isShown_of_mem_hunkLines (before after : Text) {g : List Edit} {l : Text}
    (h : l ∈ hunkLines (Text.wideLines before) (Text.wideLines after) g) : IsShown l := by
  rcases List.mem_cons.mp h with rfl | h
  · have hhead : hunkHead g = '@' :: (hunkHead g).tail := rfl
    have hmem := newline_not_mem_hunkHead g
    rw [hhead] at hmem ⊢
    exact isShown_of_not_mem (by decide) hmem
  · obtain ⟨e, -, hl⟩ := List.mem_flatMap.mp h
    rw [editLines_eq] at hl
    obtain ⟨p, hp, rfl⟩ := List.mem_map.mp hl
    refine ⟨p.1.char, p.2, rfl, by cases p.1 <;> decide, by cases p.1 <;> decide, ?_⟩
    exact (mem_of_mem_marks hp).elim (not_mem_dropEnding_of_mem_wideLines before p.2)
      (not_mem_dropEnding_of_mem_wideLines after p.2)

/-- The hunks of two texts. -/
def textHunks (before after : Text) : List (List Edit) :=
  hunks (Text.wideLines before) (Text.wideLines after)

/-- Different texts have a hunk. -/
theorem textHunks_ne_nil {before after : Text} (h : before ≠ after) : textHunks before after ≠ [] := by
  intro hnil
  obtain ⟨m, q, hh, hrest⟩ := hunks_hunked (Text.wideLines before) (Text.wideLines after)
  rw [← textHunks, hnil] at hh
  cases hh
  have e := hrest.slice_eq
  simp only [slice_zero, List.take_length] at e
  have e := congrArg List.flatten e
  rw [Text.wideLines_flatten, Text.wideLines_flatten] at e
  exact h e

/-- A diff of different texts is its two first lines and the lines of its hunks. -/
theorem unified_eq {before after : Text} (path : Text) (h : before ≠ after) :
    unified path before after =
      Text.joinLines ((("--- a/" ++ path : Text) :: ("+++ b/" ++ path : Text) ::
        (textHunks before after).flatMap
          (hunkLines (Text.wideLines before) (Text.wideLines after))).map
            (Text.dropEnding "\n")) := by
  rw [unified, if_neg h]
  obtain ⟨g, gs, e⟩ := List.exists_cons_of_ne_nil (textHunks_ne_nil h)
  have e' : hunks (Text.wideLines before) (Text.wideLines after) = g :: gs := e
  simp only [e, e', List.flatMap_cons, hunkLines, List.cons_append]

/-- A diff says that nothing changed when nothing did, and only then. -/
theorem unified_eq_nil_iff (path before after : Text) :
    unified path before after = [] ↔ before = after := by
  constructor
  · intro e
    by_contra h
    rw [unified_eq path h, List.map_cons, List.map_cons, Text.joinLines_cons_cons] at e
    cases (List.append_eq_nil_iff.mp e).2
  · rintro rfl
    rw [unified, if_pos rfl]

/-- A diff is read with the hunks that it was written from. -/
theorem read?_unified {path before after : Text} (hpath : '\n' ∉ path) (h : before ≠ after) :
    Patch.read? (unified path before after) = some ((textHunks before after).map
      (readHunk (Text.wideLines before) (Text.wideLines after))) := by
  obtain ⟨m, q, hh, -⟩ := hunks_hunked (Text.wideLines before) (Text.wideLines after)
  have hold : '\n' ∉ ("--- a/" ++ path : Text) := by simp [hpath]
  have hnew : '\n' ∉ ("+++ b/" ++ path : Text) := by simp [hpath]
  have hshown : ∀ l ∈ ("--- a/" ++ path : Text) :: ("+++ b/" ++ path : Text) ::
      (textHunks before after).flatMap
        (hunkLines (Text.wideLines before) (Text.wideLines after)), IsShown l := by
    refine List.forall_mem_cons.mpr ⟨isShown_of_not_mem (by decide) hold,
      List.forall_mem_cons.mpr ⟨isShown_of_not_mem (by decide) hnew, fun l hl => ?_⟩⟩
    obtain ⟨g, -, hl⟩ := List.mem_flatMap.mp hl
    exact isShown_of_mem_hunkLines before after hl
  have hstarts : ∀ start l : Text, '\n' ∉ start ++ l → start.isPrefixOf (fed (start ++ l)) := by
    intro start l hl
    rw [fed, dropEnding_of_not_mem hl, List.append_assoc, List.isPrefixOf_iff_prefix]
    exact List.prefix_append start _
  rw [unified_eq path h, Patch.read?, closed_lines_joinLines (List.cons_ne_nil _ _) hshown,
    List.map_cons, List.map_cons]
  simp only
  rw [if_pos, textHunks, hh.readFrom, Option.map_some]
  exact ⟨hstarts "--- " ('a' :: '/' :: path) hold, hstarts "+++ " ('b' :: '/' :: path) hnew⟩

end SuiteAudit.Diff
