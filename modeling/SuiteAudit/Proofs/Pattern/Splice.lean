import SuiteAudit.Proofs.Pattern.Scan

/-! # Replacing stretches in place

`replaceAll` is described here by its result alone: the text with some of its stretches, in order,
written otherwise (`splice`).  A pattern whose hits are replaced only where a function has something
to put there splices exactly those hits (`replaceAll_eq_splice`). -/

namespace SuiteAudit
namespace Pattern

/-- A text that begins at an offset, with each of some stretches in order replaced by the text
beside it. -/
def splice : List (Hit × Text) → Nat → Text → Text
  | [], _, t => t
  | (h, new) :: edits, o, t =>
    t.take (h.offset - o) ++ new ++
      splice edits (h.offset + h.text.length) (t.drop (h.offset + h.text.length - o))

/-! ### What is put in -/

/-- The same on the characters of a text that are marked or not; those that are put in are
marked. -/
def paint : List (Hit × Text) → Nat → List (Char × Bool) → List (Char × Bool)
  | [], _, cells => cells
  | (h, new) :: edits, o, cells =>
    cells.take (h.offset - o) ++ new.map (·, true) ++
      paint edits (h.offset + h.text.length) (cells.drop (h.offset + h.text.length - o))

/-- The same on characters with marks of any kind, when what is put in is marked after the stretch
that it takes the place of. -/
def inscribe {α : Type} (mark : Hit → α) : List (Hit × Text) → Nat → List (Char × α) →
    List (Char × α)
  | [], _, cells => cells
  | (h, new) :: edits, o, cells =>
    cells.take (h.offset - o) ++ new.map (·, mark h) ++
      inscribe mark edits (h.offset + h.text.length) (cells.drop (h.offset + h.text.length - o))

section Inscribe

variable {α : Type} {mark : Hit → α} {edits : List (Hit × Text)} {h : Hit} {new : Text} {o : Nat}
  {s r cells : List (Char × α)}

theorem map_fst_map_mark (m : α) (t : Text) : (t.map fun c => (c, m)).map Prod.fst = t := by
  rw [List.map_map]
  exact List.map_id t

/-- Without the marks it is the text with its stretches replaced. -/
theorem map_fst_inscribe (mark : Hit → α) : ∀ (edits : List (Hit × Text)) (o : Nat)
    (cells : List (Char × α)),
    (inscribe mark edits o cells).map Prod.fst = splice edits o (cells.map Prod.fst)
  | [], _, _ => rfl
  | (h, new) :: edits, o, cells => by
      rw [inscribe, splice, List.map_append, List.map_append, List.map_take, map_fst_map_mark,
        map_fst_inscribe mark edits, List.map_drop]

theorem paint_eq_inscribe : ∀ (edits : List (Hit × Text)) (o : Nat) (cells : List (Char × Bool)),
    paint edits o cells = inscribe (fun _ => true) edits o cells
  | [], _, _ => rfl
  | (h, new) :: edits, o, cells => by rw [paint, inscribe, paint_eq_inscribe edits]

theorem map_fst_paint (edits : List (Hit × Text)) (o : Nat) (cells : List (Char × Bool)) :
    (paint edits o cells).map Prod.fst = splice edits o (cells.map Prod.fst) := by
  rw [paint_eq_inscribe, map_fst_inscribe]

/-- What stands before all stretches stays. -/
theorem inscribe_append (h : ∀ e ∈ edits, o + s.length ≤ e.1.offset) :
    inscribe mark edits o (s ++ r) = s ++ inscribe mark edits (o + s.length) r := by
  cases edits with
  | nil => rfl
  | cons e edits =>
      obtain ⟨g, new⟩ := e
      have hg : o + s.length ≤ g.offset := h (g, new) List.mem_cons_self
      have e₁ : (s ++ r).take (g.offset - o) = s ++ r.take (g.offset - (o + s.length)) := by
        rw [List.take_append, List.take_of_length_le (by omega), Nat.sub_sub]
      have e₂ : (s ++ r).drop (g.offset + g.text.length - o) =
          r.drop (g.offset + g.text.length - (o + s.length)) := by
        rw [List.drop_append, List.drop_of_length_le (by omega), List.nil_append]
        congr 1
        omega
      rw [inscribe, inscribe, e₁, e₂]
      simp only [List.append_assoc]

theorem inscribe_hit (ho : h.offset = o) (hs : s.length = h.text.length) :
    inscribe mark ((h, new) :: edits) o (s ++ r) =
      new.map (·, mark h) ++ inscribe mark edits (o + h.text.length) r := by
  subst ho
  simp [inscribe, ← hs]

/-- What an edit puts in stands in the outcome, marked after its stretch. -/
theorem infix_inscribe_of_mem (mark : Hit → α) :
    ∀ {edits : List (Hit × Text)} {o : Nat} {cells : List (Char × α)}, (h, new) ∈ edits →
      new.map (·, mark h) <:+: inscribe mark edits o cells
  | (g, put) :: edits, o, cells, hm => by
      rw [inscribe]
      rcases List.mem_cons.mp hm with e | hm
      · obtain ⟨rfl, rfl⟩ := Prod.mk.inj e
        exact List.infix_append _ _ _
      · exact (infix_inscribe_of_mem mark hm).trans (List.suffix_append _ _).isInfix

end Inscribe

/-! ### What is replaced -/

/-- What stands before all stretches stays. -/
theorem splice_append {edits : List (Hit × Text)} {o : Nat} {s r : Text}
    (h : ∀ e ∈ edits, o + s.length ≤ e.1.offset) :
    splice edits o (s ++ r) = s ++ splice edits (o + s.length) r := by
  have hcells : inscribe (fun _ => ()) edits o (s.map (·, ()) ++ r.map (·, ())) =
      s.map (·, ()) ++ inscribe (fun _ => ()) edits (o + (s.map (·, ())).length) (r.map (·, ())) :=
    inscribe_append (by simpa using h)
  have e := congrArg (List.map Prod.fst) hcells
  simpa only [map_fst_inscribe, List.map_append, map_fst_map_mark, List.length_map] using e

theorem splice_hit {h : Hit} {new : Text} {edits : List (Hit × Text)} {o : Nat} {r : Text}
    (ho : h.offset = o) :
    splice ((h, new) :: edits) o (h.text ++ r) = new ++ splice edits (o + h.text.length) r := by
  have hcells : inscribe (fun _ => ()) ((h, new) :: edits) o (h.text.map (·, ()) ++ r.map (·, ())) =
      new.map (·, ()) ++ inscribe (fun _ => ()) edits (o + h.text.length) (r.map (·, ())) :=
    inscribe_hit ho (List.length_map _)
  have e := congrArg (List.map Prod.fst) hcells
  simpa only [map_fst_inscribe, List.map_append, map_fst_map_mark] using e

/-- The stretches for which a function has a new text, each with that. -/
def edits (f : Hit → Option Text) (hits : List Hit) : List (Hit × Text) :=
  hits.filterMap fun h => (f h).map (h, ·)

theorem edits_cons (f : Hit → Option Text) (h : Hit) (hits : List Hit) :
    edits f (h :: hits) = ((f h).map (h, ·)).toList ++ edits f hits := by
  unfold edits
  rw [List.filterMap_cons]
  cases f h <;> rfl

theorem le_offset_of_mem_edits {p : Pattern} (hp : p.Advances) {f : Hit → Option Text}
    {b : Option Char} {o : Nat} {t : Text} {e : Hit × Text}
    (he : e ∈ edits f (p.findAllFrom 0 b o t)) : o ≤ e.1.offset := by
  obtain ⟨h, hh, e'⟩ := List.mem_filterMap.mp he
  obtain ⟨new, -, rfl⟩ := Option.map_eq_some_iff.mp e'
  obtain ⟨a, r, -, ho, -⟩ := exists_of_mem_findAllFrom hp b o t hh
  simp only
  omega

theorem replaceFrom_eq_splice {p : Pattern} (hp : p.Advances) (f : Hit → Option Text)
    (b : Option Char) (o : Nat) (t : Text) :
    p.replaceFrom (fun h => (f h).getD h.text) 0 b o t =
      splice (edits f (p.findAllFrom 0 b o t)) o t := by
  induction b, o, t using scan_induction hp with
  | nil b o => rfl
  | miss b o c t hm ih =>
      rw [replaceFrom_miss _ hm, findAllFrom_miss hm, ih]
      exact (splice_append (s := [c]) fun e he => le_offset_of_mem_edits hp he).symm
  | hit b o h r hne hm ih =>
      rw [replaceFrom_hit _ hne hm, findAllFrom_hit hne hm, ih, edits_cons]
      cases f h with
      | none => exact (splice_append fun e he => le_offset_of_mem_edits hp he).symm
      | some new => exact (splice_hit (matchAt_offset hm)).symm

/-- Exactly the stretches for which the function has a new text are replaced. -/
theorem replaceAll_eq_splice {p : Pattern} (hp : p.Advances) (f : Hit → Option Text) (t : Text) :
    p.replaceAll (fun h => (f h).getD h.text) t = splice (edits f (p.findAll t)) 0 t :=
  replaceFrom_eq_splice hp f none 0 t

section Inscribe

variable {α : Type} {p : Pattern} (hp : p.Advances) (mark : Hit → α) (f : Hit → Option Text)

include hp

/-- A cell at which the pattern takes nothing stays as it is. -/
theorem inscribe_passed {b : Option Char} {o : Nat} {c : Char} {t : Text} {x : Char × α}
    {cells : List (Char × α)} (hm : p.matchAt ⟨b, c :: t, o⟩ = none) :
    inscribe mark (edits f (p.findAllFrom 0 b o (c :: t))) o (x :: cells) =
      x :: inscribe mark (edits f (p.findAllFrom 0 (some c) (o + 1) t)) (o + 1) cells := by
  rw [findAllFrom_miss hm]
  exact inscribe_append (s := [x]) fun e he => le_offset_of_mem_edits hp he

/-- The cells of a hit stay as they are unless there is something to put in. -/
theorem inscribe_taken {b : Option Char} {o : Nat} {h : Hit} {r : Text}
    {s cells : List (Char × α)} (hne : h.text ≠ []) (hm : p.matchAt ⟨b, h.text ++ r, o⟩ = some h)
    (hs : s.length = h.text.length) :
    inscribe mark (edits f (p.findAllFrom 0 b o (h.text ++ r))) o (s ++ cells) =
      ((f h).map fun new => new.map (·, mark h)).getD s ++
        inscribe mark (edits f (p.findAllFrom 0 (h.text.getLast?.or b) (o + h.text.length) r))
          (o + h.text.length) cells := by
  rw [findAllFrom_hit hne hm, edits_cons]
  cases f h with
  | none =>
      rw [← hs]
      exact inscribe_append fun e he => le_offset_of_mem_edits hp he
  | some new => exact inscribe_hit (matchAt_offset hm) hs

end Inscribe

/-! ### Where the edits stand -/

/-- Edits whose stretches stand in a text, each behind the one before. -/
def Fits : Nat → Text → List (Hit × Text) → Prop
  | _, _, [] => True
  | o, t, (h, _) :: edits => ∃ a r, t = a ++ (h.text ++ r) ∧ h.offset = o + a.length ∧
      Fits (h.offset + h.text.length) r edits

theorem Fits.append {s t : Text} {o : Nat} {edits : List (Hit × Text)}
    (h : Fits (o + s.length) t edits) : Fits o (s ++ t) edits := by
  cases edits with
  | nil => exact trivial
  | cons e edits =>
      obtain ⟨a, r, rfl, ho, h⟩ := h
      refine ⟨s ++ a, r, by rw [List.append_assoc], ?_, h⟩
      rw [ho, List.length_append, Nat.add_assoc]

/-- What stands before the first edit may be left out. -/
theorem Fits.drop {s t : Text} {o : Nat} {edits : List (Hit × Text)} (h : Fits o (s ++ t) edits)
    (hs : ∀ e ∈ edits.head?, o + s.length ≤ e.1.offset) : Fits (o + s.length) t edits := by
  cases edits with
  | nil => exact trivial
  | cons e edits =>
      obtain ⟨a, r, e', ho, h⟩ := h
      have hle : o + s.length ≤ e.1.offset := hs e rfl
      obtain ⟨a', rfl⟩ : s <+: a :=
        List.prefix_of_prefix_length_le ⟨t, rfl⟩ ⟨_, e'.symm⟩ (by omega)
      rw [List.append_assoc] at e'
      refine ⟨a', r, List.append_cancel_left e', ?_, h⟩
      rw [ho, List.length_append, Nat.add_assoc]

theorem Fits.le_offset : ∀ {edits : List (Hit × Text)} {t : Text} {o : Nat}, Fits o t edits →
    ∀ e ∈ edits, o ≤ e.1.offset
  | [], _, _, _, e, he => by cases he
  | g :: edits, t, o, ⟨a, r, _, ho, h⟩, e, he => by
      rcases List.mem_cons.mp he with rfl | he
      · omega
      · have := h.le_offset e he
        omega

/-- The edits of the hits of a search fit. -/
theorem fits_edits {p : Pattern} (hp : p.Advances) (f : Hit → Option Text) (b : Option Char)
    (o : Nat) (t : Text) : Fits o t (edits f (p.findAllFrom 0 b o t)) := by
  induction b, o, t using scan_induction hp with
  | nil b o => exact trivial
  | miss b o c t hm ih =>
      rw [findAllFrom_miss hm]
      exact Fits.append (s := [c]) ih
  | hit b o h r hne hm ih =>
      rw [findAllFrom_hit hne hm, edits_cons]
      cases f h with
      | none => exact ih.append
      | some new => exact ⟨[], r, rfl, matchAt_offset hm, by rw [matchAt_offset hm]; exact ih⟩

end Pattern
end SuiteAudit
