import SuiteAudit.Proofs.Diff.Reading

/-! # Where a diff applies

A diff of two texts is read with every line that it shows ended by a line feed.  So where the lines
of the old text are cut at line feeds only, applying it to that text gives the lines of the new one,
the shown ones each with an end (`Hunked.applyHunks_eq_some_iff`), and the new text itself just when
every line that is shown had one (`applies_iff`). -/

namespace SuiteAudit.Diff

open Patch (oldLines newLines)

variable {old new : List Text}

/-! ### What hunks show -/

/-- The lines that some hunks show of the old list. -/
def shownOld (old : List Text) (gs : List (List Edit)) : List Text :=
  gs.flatten.flatMap fun e => slice old e.oldLo e.oldHi

/-- The lines that some hunks show of the new list. -/
def shownNew (new : List Text) (gs : List (List Edit)) : List Text :=
  gs.flatten.flatMap fun e => slice new e.newLo e.newHi

/-- The new list from its line `j` up to the last hunk, with an end to each line that is shown. -/
def patched (new : List Text) : Nat → List (List Edit) → List Text
  | _, [] => []
  | j, g :: gs =>
    slice new j (newRange g).start ++
      (slice new (newRange g).start ((newRange g).start + (newRange g).size)).map fed ++
        patched new ((newRange g).start + (newRange g).size) gs

variable {i j m q : Nat} {g : List Edit} {gs : List (List Edit)}

/-- The old line that the last hunk ends before. -/
theorem Hunked.getLast?_eq (h : Hunked old new m q i j gs) (hne : gs ≠ []) :
    (gs.flatten.getLast?.map (·.oldHi)).getD 0 = m := by
  induction h with
  | nil => exact absurd rfl hne
  | @cons i j a b a' b' g gs _ hg htiles hrest ih =>
      rw [List.flatten_cons, List.getLast?_append]
      cases hrest with
      | nil =>
          obtain ⟨e, he⟩ := Option.isSome_iff_exists.mp (List.getLast?_isSome.mpr hg)
          rw [List.flatten_nil, List.getLast?_nil, Option.none_or, he]
          exact (htiles.getLast e he).1
      | @cons _ _ _ _ _ _ g' gs' _ hg' _ _ =>
          have hflat : (g' :: gs').flatten ≠ [] := by
            rw [List.flatten_cons]
            exact List.append_ne_nil_of_left_ne_nil hg' _
          obtain ⟨e, he⟩ := Option.isSome_iff_exists.mp (List.getLast?_isSome.mpr hflat)
          have ih := ih (List.cons_ne_nil g' gs')
          rw [he] at ih ⊢
          exact ih

theorem shownOld_cons (htiles : Tiles old new i j g m q) (gs : List (List Edit)) :
    shownOld old (g :: gs) = slice old i m ++ shownOld old gs := by
  rw [shownOld, List.flatten_cons, List.flatMap_append, htiles.flatMap_slice.1, shownOld]

theorem shownNew_cons (htiles : Tiles old new i j g m q) (gs : List (List Edit)) :
    shownNew new (g :: gs) = slice new j q ++ shownNew new gs := by
  rw [shownNew, List.flatten_cons, List.flatMap_append, htiles.flatMap_slice.2, shownNew]

theorem patched_cons (htiles : Tiles old new i j g m q) (hne : g ≠ []) (j' : Nat)
    (gs : List (List Edit)) : patched new j' (g :: gs) =
      slice new j' j ++ (slice new j q).map fed ++ patched new q gs := by
  rw [patched, (htiles.range_eq hne).2]
  simp only [Nat.add_sub_cancel' htiles.le.2]

/-! ### Hunks applied -/

theorem map_fed_eq_self_iff {ls : List Text} : ls.map fed = ls ↔ ∀ l ∈ ls, fed l = l := by
  simpa using List.map_inj_left (f := fed) (g := id) (l := ls)

/-- A hunk applies to its own stretch of the old list, if each line of it has an end. -/
theorem Tiles.applyLines_eq_some_iff (htiles : Tiles old new i j g m q) {rest : List Text}
    {p : List Text × List Text} :
    Patch.applyLines (readHunk old new g).lines (slice old i m ++ rest) = some p ↔
      (∀ l ∈ slice old i m, fed l = l) ∧ p = ((slice new j q).map fed, rest) := by
  obtain ⟨hold, hnew⟩ := htiles.lines_readHunk
  obtain ⟨out, rest'⟩ := p
  rw [Patch.applyLines_eq_some_iff, hold, hnew, ← map_fed_eq_self_iff, Prod.mk.injEq]
  constructor
  · rintro ⟨hls, hout⟩
    obtain ⟨hs, hr⟩ := List.append_inj hls (List.length_map fed).symm
    exact ⟨hs.symm, hout, hr.symm⟩
  · rintro ⟨hs, hout, rfl⟩
    rw [hs]
    exact ⟨rfl, hout⟩

/-- Hunks apply to the lines that they were made from when each line that they show of them has an
end, and give the lines of the new list. -/
theorem Hunked.applyHunks_eq_some_iff (h : Hunked old new m q i j gs) {rest out : List Text} :
    Patch.applyHunks i j (gs.map (readHunk old new)) (slice old i m ++ rest) = some out ↔
      (∀ l ∈ shownOld old gs, fed l = l) ∧ out = patched new j gs ++ rest := by
  induction h generalizing out with
  | nil =>
      rw [slice_self, List.map_nil, Patch.applyHunks, Option.some.injEq, eq_comm]
      exact ⟨fun e => ⟨nofun, e⟩, fun h => h.2⟩
  | @cons i j a b a' b' g gs hskip hne htiles hrest ih =>
      have hlen := hskip.length_slice
      have hslice := hskip.slice_eq
      have hle := hskip.le.1
      obtain ⟨n, ha, hb, -⟩ := hskip
      obtain ⟨hor, hnr⟩ := htiles.range_eq hne
      have hhead : (readHunk old new g).head = ⟨⟨a, a' - a⟩, ⟨b, b' - b⟩⟩ := by
        rw [readHunk, hor, hnr]
      rw [slice_append₃ old hle htiles.le.1 hrest.le.1, List.append_assoc, List.append_assoc,
        List.map_cons, Patch.applyHunks, hhead]
      simp only
      rw [if_pos ⟨by omega, by omega, by rw [List.length_append, hlen]; omega⟩,
        List.drop_left' hlen, List.take_left' hlen, Nat.add_sub_cancel' htiles.le.1,
        Nat.add_sub_cancel' htiles.le.2, Option.bind_eq_some_iff, shownOld_cons htiles,
        patched_cons htiles hne, List.forall_mem_append]
      constructor
      · rintro ⟨p, hp, hout⟩
        obtain ⟨hshown, rfl⟩ := htiles.applyLines_eq_some_iff.mp hp
        obtain ⟨out', hout', rfl⟩ := Option.map_eq_some_iff.mp hout
        obtain ⟨hrestShown, rfl⟩ := ih.mp hout'
        exact ⟨⟨hshown, hrestShown⟩, by simp only [hslice, List.append_assoc]⟩
      · rintro ⟨⟨hshown, hrestShown⟩, rfl⟩
        refine ⟨_, htiles.applyLines_eq_some_iff.mpr ⟨hshown, rfl⟩, ?_⟩
        rw [ih.mpr ⟨hrestShown, rfl⟩]
        simp only [Option.map_some, hslice, List.append_assoc]

/-! ### What the hunks give -/

theorem fed_append (l : Text) : ∃ e, fed l = l ++ e := by
  rw [fed_eq_ite]
  split
  · exact ⟨[], (List.append_nil l).symm⟩
  · exact ⟨['\n'], rfl⟩

theorem length_flatten_le_map_fed : ∀ (ls : List Text),
    ls.flatten.length ≤ (ls.map fed).flatten.length
  | [] => Nat.le_refl 0
  | l :: ls => by
      obtain ⟨e, he⟩ := fed_append l
      have := length_flatten_le_map_fed ls
      rw [List.map_cons, List.flatten_cons, List.flatten_cons, he]
      simp only [List.length_append]
      omega

/-- Ends are put to lines only, so the lines keep their text when they keep its length. -/
theorem map_fed_of_length_le : ∀ {ls : List Text},
    (ls.map fed).flatten.length ≤ ls.flatten.length → ls.map fed = ls
  | [], _ => rfl
  | l :: ls, h => by
      obtain ⟨e, he⟩ := fed_append l
      have := length_flatten_le_map_fed ls
      rw [List.map_cons, List.flatten_cons, List.flatten_cons, he] at h
      simp only [List.length_append] at h
      obtain rfl : e = [] := List.length_eq_zero_iff.mp (by omega)
      rw [List.map_cons, he, List.append_nil, map_fed_of_length_le (by omega)]

theorem Hunked.length_flatten_le_patched (h : Hunked old new m q i j gs) :
    (slice new j q).flatten.length ≤ (patched new j gs).flatten.length := by
  induction h with
  | nil =>
      rw [slice_self]
      exact Nat.zero_le _
  | @cons i j a b a' b' g gs hskip hne htiles hrest ih =>
      have := length_flatten_le_map_fed (slice new b b')
      rw [patched_cons htiles hne, slice_append₃ new hskip.le.2 htiles.le.2 hrest.le.2]
      simp only [List.flatten_append, List.length_append]
      omega

/-- What the hunks give is the new list when each line that they show of it has an end. -/
theorem Hunked.flatten_patched_eq_iff (h : Hunked old new m q i j gs) :
    (patched new j gs).flatten = (slice new j q).flatten ↔ ∀ l ∈ shownNew new gs, fed l = l := by
  induction h with
  | nil =>
      rw [slice_self]
      exact ⟨fun _ => nofun, fun _ => rfl⟩
  | @cons i j a b a' b' g gs hskip hne htiles hrest ih =>
      rw [shownNew_cons htiles, List.forall_mem_append, ← map_fed_eq_self_iff, ← ih,
        patched_cons htiles hne, slice_append₃ new hskip.le.2 htiles.le.2 hrest.le.2]
      simp only [List.flatten_append, List.append_assoc, List.append_cancel_left_eq]
      constructor
      · intro e
        have hlen := congrArg List.length e
        have h₁ := length_flatten_le_map_fed (slice new b b')
        have h₂ := hrest.length_flatten_le_patched
        simp only [List.length_append] at hlen
        have hfed : (slice new b b').map fed = slice new b b' := map_fed_of_length_le (by omega)
        rw [hfed] at e
        exact ⟨hfed, List.append_cancel_left e⟩
      · rintro ⟨hfed, e⟩
        rw [hfed, e]

/-! ### Diffs applied -/

/-- The lines that a diff of two texts shows, of either text. -/
def shownLines (before after : Text) : List Text :=
  shownOld (Text.wideLines before) (textHunks before after) ++
    shownNew (Text.wideLines after) (textHunks before after)

/-- Up to where the last hunk ends, the lines of the old text are cut at line feeds only. -/
def CutAtFeeds (before after : Text) : Prop :=
  (Text.wideLines before).take
      (((textHunks before after).flatten.getLast?.map (·.oldHi)).getD 0) <+:
    Patch.feedLines before

instance (before after : Text) : Decidable (CutAtFeeds before after) :=
  inferInstanceAs (Decidable (_ <+: _))

/-- A text is its first lines and the others. -/
theorem flatten_slice_append {t : Text} {n : Nat} (hn : n ≤ (Text.wideLines t).length) :
    (slice (Text.wideLines t) 0 n).flatten ++
      (slice (Text.wideLines t) n (Text.wideLines t).length).flatten = t := by
  rw [← List.flatten_append, slice_append _ (Nat.zero_le n) hn, slice_zero, List.take_length,
    Text.wideLines_flatten]

theorem applied?_unified_eq_some_iff {path before after : Text} (hpath : '\n' ∉ path)
    (hne : before ≠ after) (hcut : CutAtFeeds before after) :
    Patch.applied? (unified path before after) before = some after ↔
      ∀ l ∈ shownLines before after, l.getLast? = some '\n' := by
  obtain ⟨m, q, hh, hrest⟩ := hunks_hunked (Text.wideLines before) (Text.wideLines after)
  have hm := hh.getLast?_eq (textHunks_ne_nil hne)
  rw [← textHunks] at hh hm
  obtain ⟨rest, hfeed⟩ := hcut
  rw [hm, ← slice_zero] at hfeed
  have hsame := hrest.slice_eq
  obtain ⟨n, ho, hn, -⟩ := hrest
  have hbefore := flatten_slice_append (t := before) (n := m) (by omega)
  have hafter := flatten_slice_append (t := after) (n := q) (by omega)
  -- behind the last hunk both texts go on with the same characters
  have htail : rest.flatten =
      (slice (Text.wideLines after) q (Text.wideLines after).length).flatten := by
    have hflat := congrArg List.flatten hfeed
    rw [List.flatten_append, Patch.feedLines_flatten] at hflat
    rw [← hsame]
    exact List.append_cancel_left (hflat.trans hbefore.symm)
  have hgiven : (patched (Text.wideLines after) 0 (textHunks before after) ++ rest).flatten = after ↔
      ∀ l ∈ shownNew (Text.wideLines after) (textHunks before after), fed l = l := by
    rw [← hh.flatten_patched_eq_iff, List.flatten_append, htail]
    exact ⟨fun e => List.append_cancel_right (e.trans hafter.symm), fun e => e ▸ hafter⟩
  rw [Patch.applied?, read?_unified hpath hne, Option.bind_some, ← hfeed, Option.map_eq_some_iff]
  simp only [shownLines, List.forall_mem_append, ← fed_eq_self_iff, hh.applyHunks_eq_some_iff]
  constructor
  · rintro ⟨out, ⟨hold, rfl⟩, hout⟩
    exact ⟨hold, hgiven.mp hout⟩
  · rintro ⟨hold, hnew⟩
    exact ⟨_, ⟨hold, rfl⟩, hgiven.mpr hnew⟩

/-- A diff is empty just when nothing changed.  Under a path of one line, it applies to the old text
and gives the new one just when each line that it shows ends with a line feed: there is no remark for
one that does not.  This holds where the old lines up to the last hunk are cut at line feeds only,
since places and sizes are counted in lines that are cut at every line end. -/
theorem applies_iff (path before after : Text) :
    (unified path before after = [] ↔ before = after) ∧
      ('\n' ∉ path → before ≠ after → CutAtFeeds before after →
        (Patch.applied? (unified path before after) before = some after ↔
          ∀ l ∈ shownLines before after, l.getLast? = some '\n')) :=
  ⟨unified_eq_nil_iff path before after, fun hpath hne hcut =>
    applied?_unified_eq_some_iff hpath hne hcut⟩

/-- A diff that replaces one line by another, both with an end. -/
theorem replaced_line_applies :
    '\n' ∉ ("a.spec.ts" : Text) ∧ ("a\nb\n" : Text) ≠ "a\nc\n".toList ∧
      CutAtFeeds "a\nb\n" "a\nc\n" ∧
        Patch.applied? (unified "a.spec.ts" "a\nb\n" "a\nc\n") "a\nb\n" =
          some "a\nc\n".toList :=
  ⟨by decide, by decide, by decide +kernel,
    ((applies_iff "a.spec.ts" "a\nb\n" "a\nc\n").2 (by decide) (by decide)
      (by decide +kernel)).mpr (by decide +kernel)⟩

/-- A diff that marks that both texts lack the end of their line. -/
def markedDiff : Text :=
  "--- a/a.spec.ts\n+++ b/a.spec.ts\n@@ -1 +1 @@\n" ++
    "-a\n\\ No newline at end of file\n+b\n\\ No newline at end of file"

/-- A missing end is not marked, so the diff does not apply to the text that it was made from but to
the one that has the end; with marks it would.  A form feed far before the change moves the places in
the head of the hunk, though each shown line has its end. -/
theorem unmarked_and_moved :
    Patch.applied? (unified "a.spec.ts" "a" "b") "a" = none ∧
      Patch.applied? (unified "a.spec.ts" "a" "b") "a\n" = some "b\n".toList ∧
      Patch.applied? markedDiff "a" = some "b".toList ∧
      (∀ l ∈ shownLines "a\x0cb\nc\nd\ne\nf\ng\n" "a\x0cb\nc\nd\ne\nf\nh\n",
        l.getLast? = some '\n') ∧
      Patch.applied?
        (unified "a.spec.ts" "a\x0cb\nc\nd\ne\nf\ng\n" "a\x0cb\nc\nd\ne\nf\nh\n")
        "a\x0cb\nc\nd\ne\nf\ng\n" = none := by
  decide +kernel

end SuiteAudit.Diff
