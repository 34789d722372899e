import SuiteAudit.Proofs.Refactoring.Naming

/-! # What is recorded of a file

For each value that has a name an entry is written and a change is recorded, at the first stretch of
that value.  `Extraction.Recorded` keeps the list of these stretches with their names: entries and
changes are both read off it, so that there are as many of one as of the other.  The tables of the
context only grow at their ends meanwhile (`Context.Grows`).  One step keeps this
(`Recorded.addTimeout`, `Recorded.addData`), also up to a numeral that cannot be read
(`recorded_of_ofText`, `context_of_interrupted`). -/

namespace SuiteAudit

/-! ### Tables that grow -/

/-- Another context with the entries of this one in their places, and perhaps more behind them. -/
structure Context.Grows (c c' : Context) : Prop where
  timeouts : c.timeouts <+: c'.timeouts
  data : c.data <+: c'.data
  methods : c.methods <+: c'.methods

namespace Context.Grows

variable {a b c : Context}

theorem refl (c : Context) : c.Grows c :=
  ⟨List.prefix_refl _, List.prefix_refl _, List.prefix_refl _⟩

theorem trans (h : a.Grows b) (h' : b.Grows c) : a.Grows c :=
  ⟨h.timeouts.trans h'.timeouts, h.data.trans h'.data, h.methods.trans h'.methods⟩

end Context.Grows

namespace Extraction

variable {content : Text} {context : Context} {e e₁ e' : Extraction} {value name : Text}

/-! ### Naming a value -/

/-- What naming a value leaves as it is. -/
structure SameRecords (e e₁ : Extraction) : Prop where
  grows : e.context.Grows e₁.context
  timeouts_eq : e₁.timeouts = e.timeouts
  data_eq : e₁.data = e.data
  changes_eq : e₁.changes = e.changes

/-- An entry behind others is the one that is found when there was none before. -/
theorem get?_concat {table : Table Text Text} (h : table.get? value = none) :
    Table.get? value (table ++ [(value, name)]) = some name := by
  rw [← Table.set_of_has_eq_false (Table.has_eq_false_iff.mpr h), Table.get?_set_self]

theorem nameTimeout_named {ms : Nat} (hn : e.nameTimeout value ms = (name, e₁)) :
    e.SameRecords e₁ ∧ e₁.context.timeouts.get? value = some name := by
  cases hg : e.context.timeouts.get? value with
  | some old =>
      rw [nameTimeout_of_some hg] at hn
      obtain ⟨rfl, rfl⟩ := Prod.mk.inj hn
      exact ⟨⟨.refl _, rfl, rfl, rfl⟩, hg⟩
  | none =>
      rw [nameTimeout_of_none hg] at hn
      obtain ⟨rfl, rfl⟩ := Prod.mk.inj hn
      exact ⟨⟨⟨List.prefix_append _ _, List.prefix_refl _, List.prefix_refl _⟩, rfl, rfl, rfl⟩,
        get?_concat hg⟩

theorem nameData_named (hn : e.nameData value = (name, e₁)) :
    e.SameRecords e₁ ∧ e₁.context.data.get? value = some name := by
  cases hg : e.context.data.get? value with
  | some old =>
      rw [nameData_of_some hg] at hn
      obtain ⟨rfl, rfl⟩ := Prod.mk.inj hn
      exact ⟨⟨.refl _, rfl, rfl, rfl⟩, hg⟩
  | none =>
      rw [nameData_of_none hg] at hn
      obtain ⟨rfl, rfl⟩ := Prod.mk.inj hn
      exact ⟨⟨⟨List.prefix_refl _, List.prefix_append _ _, List.prefix_refl _⟩, rfl, rfl, rfl⟩,
        get?_concat hg⟩

/-! ### One stretch more -/

/-- What has been recorded of the stretches seen: those with a value that had no entry before, each
with the name of its value. -/
structure Recorded (content : Text) (context : Context) (seenWaits seenTexts : List Hit)
    (waits texts : List (Hit × Text)) (e : Extraction) : Prop where
  grows : context.Grows e.context
  timeouts_eq : e.timeouts = waits.map fun w => (w.1.group 1, w.2)
  data_eq : e.data = texts.map fun t => (t.1.group 2, t.2)
  changes_eq : e.changes = waits.map (fun w => timeoutChange content w.1 w.2) ++
    texts.map fun t => dataChange content t.1 t.2
  waits_seen : (waits.map Prod.fst).Sublist seenWaits
  texts_seen : (texts.map Prod.fst).Sublist seenTexts
  waits_nodup : (waits.map fun w => w.1.group 1).Nodup
  texts_nodup : (texts.map fun t => t.1.group 2).Nodup
  waits_named : ∀ w ∈ waits, e.context.timeouts.get? (w.1.group 1) = some w.2
  texts_named : ∀ t ∈ texts, e.context.data.get? (t.1.group 2) = some t.2

theorem recorded_start (content : Text) (context : Context) :
    Recorded content context [] [] [] [] (start context) where
  grows := .refl _
  timeouts_eq := rfl
  data_eq := rfl
  changes_eq := rfl
  waits_seen := List.Sublist.refl []
  texts_seen := List.Sublist.refl []
  waits_nodup := List.nodup_nil
  texts_nodup := List.nodup_nil
  waits_named := fun _ h => by cases h
  texts_named := fun _ h => by cases h

/-- Without a double before, there is none with a new one behind. -/
theorem nodup_map_concat {α β : Type} {f : α → β} {xs : List α} {x : α} (h : (xs.map f).Nodup)
    (hx : f x ∉ xs.map f) : ((xs ++ [x]).map f).Nodup := by
  rw [List.map_append, List.map_singleton]
  exact List.nodup_append.mpr ⟨h, List.nodup_singleton _, fun a ha b hb => by
    rintro rfl
    exact hx (List.mem_singleton.mp hb ▸ ha)⟩

variable {seenWaits seenTexts : List Hit} {waits texts : List (Hit × Text)} {hit : Hit}

theorem Recorded.addTimeout (h : Recorded content context seenWaits [] waits [] e)
    (hs : addTimeout content e hit = .ok e') :
    ∃ waits', Recorded content context (seenWaits ++ [hit]) [] waits' [] e' := by
  obtain ⟨ms, -, ⟨-, rfl⟩ | ⟨-, hh, name, e₁, hn, rfl⟩⟩ := addTimeout_cases hs
  · exact ⟨waits, { h with waits_seen := h.waits_seen.trans (List.sublist_append_left _ _) }⟩
  · obtain ⟨hsame, hget⟩ := nameTimeout_named hn
    have hnew : hit.group 1 ∉ waits.map fun w => w.1.group 1 := by
      have := Table.not_mem_keys_of_has_eq_false hh
      rw [h.timeouts_eq, Table.keys, List.map_map] at this
      exact this
    refine ⟨waits ++ [(hit, name)], ⟨h.grows.trans hsame.grows, ?_, ?_, ?_, ?_, h.texts_seen,
      nodup_map_concat h.waits_nodup hnew, h.texts_nodup, ?_, fun _ hm => by cases hm⟩⟩
    · rw [hsame.timeouts_eq, Table.set_of_has_eq_false hh, h.timeouts_eq, List.map_append]
      rfl
    · rw [hsame.data_eq, h.data_eq]
    · simp only
      rw [hsame.changes_eq, h.changes_eq, List.map_append, List.map_nil, List.append_nil,
        List.append_nil]
      rfl
    · rw [List.map_append]
      exact h.waits_seen.append (List.Sublist.refl _)
    · intro w hw
      rcases List.mem_append.mp hw with hw | hw
      · exact Table.get?_of_prefix hsame.grows.timeouts (h.waits_named w hw)
      · obtain rfl := List.mem_singleton.mp hw
        exact hget

theorem Recorded.addData (h : Recorded content context seenWaits seenTexts waits texts e)
    (hit : Hit) : ∃ texts', Recorded content context seenWaits (seenTexts ++ [hit]) waits texts'
      (addData content e hit) := by
  obtain ⟨-, he⟩ | ⟨-, hh, name, e₁, hn, he⟩ := addData_cases content e hit <;> rw [he]
  · exact ⟨texts, { h with texts_seen := h.texts_seen.trans (List.sublist_append_left _ _) }⟩
  · obtain ⟨hsame, hget⟩ := nameData_named hn
    have hnew : hit.group 2 ∉ texts.map fun t => t.1.group 2 := by
      have := Table.not_mem_keys_of_has_eq_false hh
      rw [h.data_eq, Table.keys, List.map_map] at this
      exact this
    refine ⟨texts ++ [(hit, name)], ⟨h.grows.trans hsame.grows, ?_, ?_, ?_, h.waits_seen, ?_,
      h.waits_nodup, nodup_map_concat h.texts_nodup hnew, ?_, ?_⟩⟩
    · rw [hsame.timeouts_eq, h.timeouts_eq]
    · rw [hsame.data_eq, Table.set_of_has_eq_false hh, h.data_eq, List.map_append]
      rfl
    · simp only
      rw [hsame.changes_eq, h.changes_eq, List.map_append, List.append_assoc]
      rfl
    · rw [List.map_append]
      exact h.texts_seen.append (List.Sublist.refl _)
    · intro w hw
      exact Table.get?_of_prefix hsame.grows.timeouts (h.waits_named w hw)
    · intro t ht
      rcases List.mem_append.mp ht with ht | ht
      · exact Table.get?_of_prefix hsame.grows.data (h.texts_named t ht)
      · obtain rfl := List.mem_singleton.mp ht
        exact hget

/-! ### A whole file -/

theorem Recorded.foldl : ∀ (hits : List Hit) {seenTexts : List Hit} {texts : List (Hit × Text)}
    {e : Extraction}, Recorded content context seenWaits seenTexts waits texts e →
      ∃ texts', Recorded content context seenWaits (seenTexts ++ hits) waits texts'
        (hits.foldl (Extraction.addData content) e)
  | [], seenTexts, texts, e, h => ⟨texts, by simpa using h⟩
  | hit :: hits, seenTexts, texts, e, h => by
      obtain ⟨texts', h'⟩ := h.addData hit
      have := Recorded.foldl hits h'
      rwa [List.append_assoc, List.singleton_append] at this

/-- What is recorded of a file whose numerals can all be read. -/
theorem recorded_of_ofText (he : ofText content context = .ok e) :
    ∃ waits texts, Recorded content context (Literal.timeoutCall.findAll content)
      (Literal.longText.findAll content) waits texts e := by
  obtain ⟨e₁, ⟨waits, h⟩, rfl⟩ := exists_waits_of_ofText
    (P := fun seen e => ∃ waits, Recorded content context seen [] waits [] e)
    (fun ⟨_, h⟩ ha => h.addTimeout ha) ⟨[], recorded_start content context⟩ he
  obtain ⟨texts, h⟩ := h.foldl (Literal.longText.findAll content)
  exact ⟨waits, texts, h⟩

end Extraction
end SuiteAudit
