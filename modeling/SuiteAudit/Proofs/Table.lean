import Mathlib.Data.List.Induction
import SuiteAudit.Table

/-! # Entries of a table

What `get?` finds is an entry, a key that is not there is written at the end (`modify_of_not_mem`),
and a table in which no value occurs twice gives different values to different keys
(`eq_of_values_nodup`).  Things taken in one by one under their keys are grouped by them
(`foldl_modify_append`), in the order in which the keys first come (`eraseDups_map_eq`). -/

namespace SuiteAudit

theorem nodup_eraseDups {α : Type} [BEq α] [LawfulBEq α] (l : List α) : l.eraseDups.Nodup := by
  match l with
  | [] => exact .nil
  | a :: l =>
      rw [List.eraseDups_cons, List.nodup_cons]
      refine ⟨fun h => ?_, nodup_eraseDups _⟩
      simpa using List.mem_eraseDups.mp h
termination_by l.length
decreasing_by exact Nat.lt_succ_of_le (List.length_filter_le ..)

/-- The keys of distinct things, each once, are those of the things that come first under theirs. -/
theorem eraseDups_map_eq {α κ : Type} [DecidableEq α] [DecidableEq κ] [BEq κ] [LawfulBEq κ]
    (key : α → κ) {l : List α} (h : l.Nodup) : (l.map key).eraseDups =
      (l.filter fun a => l.find? (fun b => key b = key a) = some a).map key := by
  -- by the last one, which comes first exactly when its key is new
  induction l using List.reverseRecOn with
  | nil => rfl
  | append_singleton front a ih =>
      obtain ⟨hfront, -, hdisjoint⟩ := List.nodup_append.mp h
      have ha : a ∉ front := fun hm => hdisjoint a hm a (List.mem_singleton_self a) rfl
      have hkept : front.filter (fun b =>
          (front ++ [a]).find? (fun c => key c = key b) = some b) =
          front.filter fun b => front.find? (fun c => key c = key b) = some b := by
        refine List.filter_congr fun b hb => ?_
        have hsome : (front.find? fun c => key c = key b).isSome = true :=
          List.find?_isSome.mpr ⟨b, hb, decide_eq_true rfl⟩
        rw [List.find?_append, Option.or_of_isSome hsome]
      rw [List.map_append, List.eraseDups_append, ih hfront, List.filter_append, List.map_append,
        hkept]
      congr 1
      cases hfind : front.find? (fun c => key c = key a) with
      | some b =>
          have hb : key b = key a := by simpa using List.find?_some hfind
          have hmem : b ∈ front := List.mem_of_find?_eq_some hfind
          have hne : b ≠ a := fun e => ha (e ▸ hmem)
          have hold : ([a].map key).removeAll (front.map key) = [] := by
            simpa [List.removeAll] using ⟨b, hmem, hb⟩
          rw [hold, List.filter_cons_of_neg (by simp [hfind, hne])]
          rfl
      | none =>
          have hnew : ([a].map key).removeAll (front.map key) = [key a] := by
            simpa [List.removeAll] using fun b hb => List.find?_eq_none.mp hfind b hb
          rw [hnew, List.filter_cons_of_pos (by simp [hfind])]
          rfl

namespace Table

variable {κ β : Type} [DecidableEq κ] {key : κ} {value : β} {table : Table κ β}

theorem mem_of_get? : ∀ {table : Table κ β}, get? key table = some value → (key, value) ∈ table
  | [], h => by cases h
  | (k, v) :: rest, h => by
      rw [get?] at h
      split at h
      · next hk =>
        obtain rfl := Option.some.inj h
        rw [hk]
        exact List.mem_cons_self
      · exact List.mem_cons_of_mem _ (mem_of_get? h)

theorem mem_values_of_get? {table : Table κ β} (h : get? key table = some value) :
    value ∈ table.values :=
  List.mem_map.mpr ⟨_, mem_of_get? h, rfl⟩

theorem has_iff : has key table = true ↔ ∃ value, get? key table = some value :=
  Option.isSome_iff_exists

theorem has_eq_false_iff : has key table = false ↔ get? key table = none := by
  rw [has, Option.isSome_eq_false_iff, Option.isNone_iff_eq_none]

theorem exists_get?_of_mem : ∀ {table : Table κ β}, (key, value) ∈ table →
    ∃ v, get? key table = some v
  | [], h => by cases h
  | (k, v) :: rest, h => by
      rw [get?]
      split
      · exact ⟨v, rfl⟩
      · next hk =>
        rcases List.mem_cons.mp h with e | h
        · exact absurd (congrArg Prod.fst e).symm hk
        · exact exists_get?_of_mem h

/-- Where no key occurs twice, each entry is the one that is found. -/
theorem get?_of_mem : ∀ {table : Table κ β}, table.keys.Nodup → (key, value) ∈ table →
    get? key table = some value
  | [], _, h => by cases h
  | (k, v) :: rest, hn, h => by
      obtain ⟨hk, hrest⟩ := List.nodup_cons.mp hn
      rw [get?]
      rcases List.mem_cons.mp h with e | h
      · obtain ⟨rfl, rfl⟩ := Prod.mk.inj e
        exact if_pos rfl
      · have hne : k ≠ key := by
          rintro rfl
          exact hk (List.mem_map.mpr ⟨_, h, rfl⟩)
        rw [if_neg hne, get?_of_mem hrest h]

theorem map_get?_keys (h : table.keys.Nodup) :
    table.keys.map (fun key => get? key table) = table.values.map some := by
  rw [keys, values, List.map_map, List.map_map]
  exact List.map_congr_left fun _ hp => get?_of_mem h hp

/-- A key that is not there gets what is made of nothing, at the end. -/
theorem modify_of_not_mem {f : Option β → β} : ∀ {table : Table κ β}, key ∉ table.keys →
    modify key f table = table ++ [(key, f none)]
  | [], _ => rfl
  | (k, v) :: rest, h => by
      have hk : ¬k = key := fun e => h (List.mem_cons.mpr (.inl e.symm))
      rw [modify, if_neg hk, modify_of_not_mem fun hm => h (List.mem_cons_of_mem _ hm),
        List.cons_append]

/-- A key that is there gets what is made of its value; the others keep theirs. -/
theorem modify_map_of_mem {f : Option β → β} {g : κ → β} : ∀ {keys : List κ}, keys.Nodup →
    key ∈ keys → modify key f (keys.map fun k => (k, g k)) =
      keys.map fun k => (k, if k = key then f (some (g k)) else g k)
  | k :: rest, hn, hm => by
      obtain ⟨hk, hn⟩ := List.nodup_cons.mp hn
      rw [List.map_cons, modify, List.map_cons]
      split
      · next e =>
          have hrest : ∀ k' ∈ rest, (k', g k') = (k', if k' = key then f (some (g k')) else g k') := by
            intro k' hk'
            rw [if_neg fun e' : k' = key => hk (e.trans e'.symm ▸ hk')]
          rw [List.map_congr_left hrest]
      · next e =>
          have hrest : key ∈ rest := (List.mem_cons.mp hm).resolve_left (Ne.symm e)
          rw [modify_map_of_mem hn hrest]

/-- Things that are taken in one by one under their keys: the keys stand in the order in which they
first came, each with what all things under it add up to. -/
theorem foldl_modify {α : Type} [BEq κ] [LawfulBEq κ] (key : α → κ) (add : β → α → β) (start : β)
    (l : List α) :
    l.foldl (fun table a => modify (key a) (fun old => add (old.getD start) a) table) [] =
      (l.map key).eraseDups.map fun k => (k, (l.filter fun a => key a = k).foldl add start) := by
  -- by the last one, since the table grows at its end
  induction l using List.reverseRecOn with
  | nil => rfl
  | append_singleton front a ih =>
      rw [List.foldl_append, List.foldl_cons, List.foldl_nil, ih, List.map_append,
        List.eraseDups_append]
      by_cases hm : key a ∈ front.map key
      · have hold : ([a].map key).removeAll (front.map key) = [] := by
          simpa [List.removeAll] using hm
        rw [hold, List.eraseDups_nil, List.append_nil,
          modify_map_of_mem (nodup_eraseDups _) (List.mem_eraseDups.mpr hm)]
        refine List.map_congr_left fun k _ => ?_
        by_cases hk : k = key a
        · subst hk
          simp
        · simp [hk, Ne.symm hk]
      · have hnew : ([a].map key).removeAll (front.map key) = [key a] := by
          simpa [List.removeAll] using hm
        have hnone : front.filter (fun b => key b = key a) = [] :=
          List.filter_eq_nil_iff.mpr fun b hb he =>
            hm (List.mem_map.mpr ⟨b, hb, of_decide_eq_true he⟩)
        have hone : [key a].eraseDups = [key a] := rfl
        rw [hnew, modify_of_not_mem, hone, List.map_append]
        · congr 1
          · refine List.map_congr_left fun k hk => ?_
            have hne : key a ≠ k := fun e => hm (e ▸ List.mem_eraseDups.mp hk)
            simp [hne]
          · rw [List.map_singleton, List.filter_append, hnone]
            simp
        · rw [Table.keys, List.map_map]
          intro hk
          exact hm (List.mem_eraseDups.mp (by simpa using hk))

theorem foldl_modify_append {α : Type} [BEq κ] [LawfulBEq κ] (key : α → κ) (values : α → List β)
    (l : List α) :
    l.foldl (fun table a => modify (key a) (fun old => old.getD [] ++ values a) table) [] =
      (l.map key).eraseDups.map fun k => (k, (l.filter fun a => key a = k).flatMap values) := by
  rw [foldl_modify key (fun old a => old ++ values a)]
  simp only [List.foldl_append_eq_append, List.nil_append, List.flatMap_def]

/-! ### Counting -/

section Tally

variable [BEq κ] [LawfulBEq κ]

end Tally

theorem has_iff_mem_keys : has key table = true ↔ key ∈ table.keys := by
  rw [has_iff]
  constructor
  · rintro ⟨v, hv⟩
    exact List.mem_map.mpr ⟨_, mem_of_get? hv, rfl⟩
  · intro hm
    obtain ⟨p, hp, rfl⟩ := List.mem_map.mp hm
    exact exists_get?_of_mem hp

theorem not_mem_keys_of_has_eq_false (h : has key table = false) : key ∉ table.keys := fun hm => by
  rw [has_iff_mem_keys.mpr hm] at h
  cases h

/-- A key that is not there is written at the end. -/
theorem set_of_has_eq_false (h : has key table = false) :
    set key value table = table ++ [(key, value)] :=
  modify_of_not_mem (not_mem_keys_of_has_eq_false h)

/-- Entries with new keys are written behind those of a table. -/
theorem foldl_set_eq_append : ∀ {pairs table : Table κ β}, (table.keys ++ pairs.keys).Nodup →
    pairs.foldl (fun table p => set p.1 p.2 table) table = table ++ pairs
  | [], table, _ => (List.append_nil table).symm
  | (k, v) :: pairs, table, h => by
      have hk : k ∉ table.keys := fun hm =>
        (List.nodup_append.mp h).2.2 k hm k List.mem_cons_self rfl
      have hset : set k v table = table ++ [(k, v)] := modify_of_not_mem hk
      rw [List.foldl_cons, hset, foldl_set_eq_append, List.append_assoc, List.singleton_append]
      simpa [keys] using h

theorem ofPairs_of_nodup {pairs : Table κ β} (h : pairs.keys.Nodup) : ofPairs pairs = pairs :=
  foldl_set_eq_append h

/-- What a table has it still has with entries behind. -/
theorem get?_append_of_some : ∀ {table : Table κ β} (more : Table κ β),
    get? key table = some value → get? key (table ++ more) = some value
  | [], _, h => by cases h
  | (k, v) :: rest, more, h => by
      rw [get?] at h
      rw [List.cons_append, get?]
      split
      · next hk => rwa [if_pos hk] at h
      · next hk =>
        rw [if_neg hk] at h
        exact get?_append_of_some more h

theorem get?_of_prefix {larger : Table κ β} (hp : table <+: larger)
    (h : get? key table = some value) : get? key larger = some value := by
  obtain ⟨more, rfl⟩ := hp
  exact get?_append_of_some more h

theorem has_set (other : κ) : has other (set key value table) = (decide (other = key) || has other table) := by
  by_cases h : other = key
  · subst h
    simp [has, get?_set_self]
  · simp [has, get?_set_of_ne h, h]

omit [DecidableEq κ] in
theorem keys_concat (table : Table κ β) (key : κ) (value : β) :
    Table.keys (table ++ [(key, value)]) = table.keys ++ [key] := List.map_append

omit [DecidableEq κ] in
theorem values_concat (table : Table κ β) (key : κ) (value : β) :
    Table.values (table ++ [(key, value)]) = table.values ++ [value] := List.map_append

omit [DecidableEq κ] in
/-- Where no value occurs twice, an entry is known by its value. -/
theorem eq_of_values_nodup : ∀ {table : Table κ β}, table.values.Nodup → ∀ {p q : κ × β},
    p ∈ table → q ∈ table → p.2 = q.2 → p = q
  | [], _, _, _, hp, _, _ => by cases hp
  | r :: rest, h, p, q, hp, hq, e => by
      obtain ⟨hr, hrest⟩ := List.nodup_cons.mp h
      rcases List.mem_cons.mp hp with ep | hp' <;> rcases List.mem_cons.mp hq with eq | hq'
      · rw [ep, eq]
      · exact absurd (List.mem_map.mpr ⟨q, hq', by rw [← e, ep]⟩) hr
      · exact absurd (List.mem_map.mpr ⟨p, hp', by rw [e, eq]⟩) hr
      · exact eq_of_values_nodup hrest hp' hq' e

end Table
end SuiteAudit
