import Mathlib.Data.List.Basic
import SuiteAudit.Proofs.Refactoring.GivenName
import SuiteAudit.Proofs.Table

/-! # What has a name

The names of a file are found by taking in its fixed waits and then its long quoted texts, one at a
time.  `Extraction.Holds` says what is true after some of them: a wait has a name exactly when it
was seen and is long, a text exactly when it was seen and reads like test data, every name stands in
the context and is one of the names given before or made up here, and distinct names stay distinct.
One step keeps it (`Holds.addTimeout`, `Holds.addData`), and `holds_of_ofText` is what is true at
the end. -/

namespace SuiteAudit

/-- A numeral that stands for a wait long enough to have a name. -/
def IsLongWait (value : Text) : Prop :=
  ∃ ms, readNumeral value = .ok ms ∧ Literal.minNamedTimeout ≤ ms

namespace Extraction

/-! ### One step -/

theorem nameTimeout_of_some {e : Extraction} {value name : Text} {ms : Nat}
    (h : e.context.timeouts.get? value = some name) : e.nameTimeout value ms = (name, e) := by
  unfold nameTimeout
  rw [h]

theorem nameTimeout_of_none {e : Extraction} {value : Text} {ms : Nat}
    (h : e.context.timeouts.get? value = none) :
    e.nameTimeout value ms = (unusedName (Literal.timeoutName ms) e.taken,
      { e with
        context := { e.context with timeouts :=
          e.context.timeouts ++ [(value, unusedName (Literal.timeoutName ms) e.taken)] }
        taken := unusedName (Literal.timeoutName ms) e.taken :: e.taken }) := by
  unfold nameTimeout
  rw [h, ← Table.set_of_has_eq_false (Table.has_eq_false_iff.mpr h)]

theorem nameData_of_some {e : Extraction} {value name : Text}
    (h : e.context.data.get? value = some name) : e.nameData value = (name, e) := by
  unfold nameData
  rw [h]

theorem nameData_of_none {e : Extraction} {value : Text} (h : e.context.data.get? value = none) :
    e.nameData value = (unusedName (Literal.dataName value) e.taken,
      { e with
        context := { e.context with data :=
          e.context.data ++ [(value, unusedName (Literal.dataName value) e.taken)] }
        taken := unusedName (Literal.dataName value) e.taken :: e.taken }) := by
  unfold nameData
  rw [h, ← Table.set_of_has_eq_false (Table.has_eq_false_iff.mpr h)]

/-- A wait gets the name that the context has for it, or a new one that the context then has. -/
theorem nameTimeout_cases (e : Extraction) (value : Text) (ms : Nat) :
    ∃ name e', e.nameTimeout value ms = (name, e') ∧
      ((value, name) ∈ e.context.timeouts ∧ e' = e ∨
        name = unusedName (Literal.timeoutName ms) e.taken ∧
        e' = { e with
          context := { e.context with timeouts := e.context.timeouts ++ [(value, name)] }
          taken := name :: e.taken }) := by
  cases hg : e.context.timeouts.get? value with
  | some name => exact ⟨name, e, nameTimeout_of_some hg, Or.inl ⟨Table.mem_of_get? hg, rfl⟩⟩
  | none => exact ⟨_, _, nameTimeout_of_none hg, Or.inr ⟨rfl, rfl⟩⟩

/-- The same for test data. -/
theorem nameData_cases (e : Extraction) (value : Text) :
    ∃ name e', e.nameData value = (name, e') ∧
      ((value, name) ∈ e.context.data ∧ e' = e ∨
        name = unusedName (Literal.dataName value) e.taken ∧
        e' = { e with
          context := { e.context with data := e.context.data ++ [(value, name)] }
          taken := name :: e.taken }) := by
  cases hg : e.context.data.get? value with
  | some name => exact ⟨name, e, nameData_of_some hg, Or.inl ⟨Table.mem_of_get? hg, rfl⟩⟩
  | none => exact ⟨_, _, nameData_of_none hg, Or.inr ⟨rfl, rfl⟩⟩

/-- A wait that is taken in is readable; it changes nothing when it is short or seen before, and
else it is entered under its name. -/
theorem addTimeout_cases {content : Text} {e e' : Extraction} {hit : Hit}
    (h : addTimeout content e hit = .ok e') :
    ∃ ms, readNumeral (hit.group 1) = .ok ms ∧
      ((ms < Literal.minNamedTimeout ∨ e.timeouts.has (hit.group 1) = true) ∧ e' = e ∨
        Literal.minNamedTimeout ≤ ms ∧ e.timeouts.has (hit.group 1) = false ∧
        ∃ name e₁, e.nameTimeout (hit.group 1) ms = (name, e₁) ∧
          e' = { e₁ with
            timeouts := e₁.timeouts.set (hit.group 1) name
            changes := e₁.changes ++ [timeoutChange content hit name] }) := by
  simp only [addTimeout] at h
  cases hr : readNumeral (hit.group 1) with
  | error cause => rw [hr] at h; cases h
  | ok ms =>
      simp only [hr] at h
      refine ⟨ms, rfl, ?_⟩
      split at h
      · next hk => exact Or.inl ⟨hk, (Except.ok.inj h).symm⟩
      · next hk =>
        rw [not_or, Nat.not_lt, Bool.not_eq_true] at hk
        exact Or.inr ⟨hk.1, hk.2, _, _, rfl, (Except.ok.inj h).symm⟩

/-- A text that is no test data or was seen before changes nothing, another one is entered under its
name. -/
theorem addData_cases (content : Text) (e : Extraction) (hit : Hit) :
    (Literal.looksLikeTestData (hit.group 2) = false ∨ e.data.has (hit.group 2) = true) ∧
        addData content e hit = e ∨
      Literal.looksLikeTestData (hit.group 2) = true ∧ e.data.has (hit.group 2) = false ∧
      ∃ name e₁, e.nameData (hit.group 2) = (name, e₁) ∧
        addData content e hit = { e₁ with
          data := e₁.data.set (hit.group 2) name
          changes := e₁.changes ++ [dataChange content hit name] } := by
  simp only [addData]
  cases hl : Literal.looksLikeTestData (hit.group 2) with
  | false => exact Or.inl ⟨Or.inl rfl, rfl⟩
  | true =>
      cases hh : e.data.has (hit.group 2) with
      | true => exact Or.inl ⟨Or.inr rfl, rfl⟩
      | false => exact Or.inr ⟨rfl, rfl, _, _, rfl, rfl⟩

/-! ### Names stay distinct -/

/-- The names of the context are names given before or made up here, all of them are taken, and
they are distinct if they were. -/
structure KeepsNames (context : Context) (e : Extraction) : Prop where
  timeouts : ∀ n ∈ e.context.timeouts.values, n ∈ context.timeouts.values ∨ IsGivenName n
  data : ∀ n ∈ e.context.data.values, n ∈ context.data.values ∨ IsGivenName n
  taken : ∀ n ∈ e.context.names, n ∈ e.taken
  distinct : context.names.Nodup → e.context.names.Nodup

theorem keepsNames_start (context : Context) : KeepsNames context (start context) :=
  ⟨fun _ h => Or.inl h, fun _ h => Or.inl h, fun _ h => h, fun h => h⟩

/-- A name that is not taken may be added anywhere among the names. -/
theorem KeepsNames.insert {context : Context} {e : Extraction} {name base : Text}
    {names : List Text} (h : KeepsNames context e) (hn : name = unusedName base e.taken)
    (hp : names.Perm (name :: e.context.names)) :
    (∀ n ∈ names, n ∈ name :: e.taken) ∧ (context.names.Nodup → names.Nodup) := by
  refine ⟨fun n hmem => ?_, fun hd => ?_⟩
  · rcases List.mem_cons.mp (hp.mem_iff.mp hmem) with rfl | hmem
    · exact List.mem_cons_self
    · exact List.mem_cons_of_mem name (h.taken n hmem)
  · refine hp.nodup_iff.mpr (List.nodup_cons.mpr ⟨fun hmem => ?_, h.distinct hd⟩)
    exact unusedName_not_mem base e.taken (hn ▸ h.taken name hmem)

/-- Values with one entry more are the values and that of the entry. -/
theorem mem_values_concat {table : Table Text Text} {value name n : Text}
    (h : n ∈ Table.values (table ++ [(value, name)])) : n ∈ table.values ∨ n = name := by
  rw [Table.values_concat, List.mem_append] at h
  exact h.imp_right fun h => List.mem_singleton.mp h

theorem names_append_timeout (c : Context) (value name : Text) :
    ({ c with timeouts := c.timeouts ++ [(value, name)] } : Context).names.Perm
      (name :: c.names) := by
  simp only [Context.names, Table.values, List.map_append, List.map_cons, List.map_nil,
    List.append_assoc, List.singleton_append]
  exact List.perm_middle

theorem names_append_data (c : Context) (value name : Text) :
    ({ c with data := c.data ++ [(value, name)] } : Context).names.Perm (name :: c.names) := by
  simp only [Context.names, Table.values, List.map_append, List.map_cons, List.map_nil,
    List.append_assoc, List.singleton_append]
  rw [← List.append_assoc, ← List.append_assoc]
  exact List.perm_middle

/-- Naming a value changes the context and the taken names only, and the context only grows. -/
structure Extends (e e' : Extraction) : Prop where
  timeouts_eq : e'.timeouts = e.timeouts
  data_eq : e'.data = e.data
  methods_eq : e'.context.methods = e.context.methods
  timeouts_subset : e.context.timeouts ⊆ e'.context.timeouts
  data_subset : e.context.data ⊆ e'.context.data

theorem nameTimeout_spec {context : Context} {e e' : Extraction} {value name : Text} {ms : Nat}
    (hk : KeepsNames context e) (hn : e.nameTimeout value ms = (name, e')) :
    KeepsNames context e' ∧ e.Extends e' ∧ (value, name) ∈ e'.context.timeouts := by
  obtain ⟨_, _, e₁, ⟨hm, rfl⟩ | ⟨hname, rfl⟩⟩ := e.nameTimeout_cases value ms <;>
    obtain ⟨rfl, rfl⟩ := Prod.mk.inj (hn.symm.trans e₁)
  · exact ⟨hk, ⟨rfl, rfl, rfl, List.Subset.refl _, List.Subset.refl _⟩, hm⟩
  · obtain ⟨htaken, hdistinct⟩ := hk.insert hname (names_append_timeout _ _ _)
    refine ⟨⟨fun n hn => ?_, hk.data, htaken, hdistinct⟩,
      ⟨rfl, rfl, rfl, List.subset_append_left _ _, List.Subset.refl _⟩,
      List.mem_append_right _ List.mem_cons_self⟩
    rcases mem_values_concat hn with hn | rfl
    · exact hk.timeouts n hn
    · exact Or.inr ⟨_, _, hname, Or.inl ⟨ms, rfl⟩⟩

theorem nameData_spec {context : Context} {e e' : Extraction} {value name : Text}
    (hk : KeepsNames context e) (hn : e.nameData value = (name, e')) :
    KeepsNames context e' ∧ e.Extends e' ∧ (value, name) ∈ e'.context.data := by
  obtain ⟨_, _, e₁, ⟨hm, rfl⟩ | ⟨hname, rfl⟩⟩ := e.nameData_cases value <;>
    obtain ⟨rfl, rfl⟩ := Prod.mk.inj (hn.symm.trans e₁)
  · exact ⟨hk, ⟨rfl, rfl, rfl, List.Subset.refl _, List.Subset.refl _⟩, hm⟩
  · obtain ⟨htaken, hdistinct⟩ := hk.insert hname (names_append_data _ _ _)
    refine ⟨⟨hk.timeouts, fun n hn => ?_, htaken, hdistinct⟩,
      ⟨rfl, rfl, rfl, List.Subset.refl _, List.subset_append_left _ _⟩,
      List.mem_append_right _ List.mem_cons_self⟩
    rcases mem_values_concat hn with hn | rfl
    · exact hk.data n hn
    · exact Or.inr ⟨_, _, hname, Or.inr ⟨value, rfl⟩⟩

/-! ### After some waits and texts -/

/-- What is true when the stretches `waits` and `texts` have been taken in. -/
structure Holds (context : Context) (waits texts : List Hit) (e : Extraction) : Prop where
  keeps : KeepsNames context e
  methods : e.context.methods = context.methods
  readable : ∀ hit ∈ waits, ∃ ms, readNumeral (hit.group 1) = .ok ms
  timeouts_iff : ∀ v, e.timeouts.has v = true ↔ (∃ hit ∈ waits, hit.group 1 = v) ∧ IsLongWait v
  data_iff : ∀ v, e.data.has v = true ↔
    (∃ hit ∈ texts, hit.group 2 = v) ∧ Literal.looksLikeTestData v = true
  timeouts_subset : e.timeouts ⊆ e.context.timeouts
  data_subset : e.data ⊆ e.context.data

theorem holds_start (context : Context) : Holds context [] [] (start context) where
  keeps := keepsNames_start context
  methods := rfl
  readable := fun _ h => by cases h
  timeouts_iff := fun v => by simp [start, Table.has, Table.get?]
  data_iff := fun v => by simp [start, Table.has, Table.get?]
  timeouts_subset := List.nil_subset _
  data_subset := List.nil_subset _

/-- Seeing one stretch more, as an equivalence on what was seen. -/
theorem exists_mem_concat {hits : List Hit} {hit : Hit} {g : Nat} {v : Text} :
    (∃ h ∈ hits ++ [hit], h.group g = v) ↔ (∃ h ∈ hits, h.group g = v) ∨ hit.group g = v := by
  simp only [List.mem_append, List.mem_singleton, or_and_right, exists_or, exists_eq_left]

/-- An entry is written into a table that lies within a larger one. -/
theorem set_subset {table larger : Table Text Text} {value name : Text}
    (hh : table.has value = false) (hs : table ⊆ larger) (hm : (value, name) ∈ larger) :
    table.set value name ⊆ larger := by
  rw [Table.set_of_has_eq_false hh]
  exact List.append_subset.mpr ⟨hs, List.cons_subset.mpr ⟨hm, List.nil_subset _⟩⟩

variable {context : Context} {waits texts : List Hit} {content : Text} {e e' : Extraction}
  {hit : Hit}

theorem Holds.addTimeout (h : Holds context waits texts e)
    (hs : addTimeout content e hit = .ok e') : Holds context (waits ++ [hit]) texts e' := by
  obtain ⟨ms, hr, ⟨hk, rfl⟩ | ⟨hms, hh, name, e₁, hn, rfl⟩⟩ := addTimeout_cases hs
  all_goals
    have hreadable : ∀ g ∈ waits ++ [hit], ∃ ms, readNumeral (g.group 1) = .ok ms := by
      intro g hg
      rcases List.mem_append.mp hg with hg | hg
      · exact h.readable g hg
      · obtain rfl := List.mem_singleton.mp hg
        exact ⟨ms, hr⟩
  · refine { h with readable := hreadable, timeouts_iff := fun v => ?_ }
    rw [exists_mem_concat, h.timeouts_iff]
    refine ⟨fun hv => ⟨Or.inl hv.1, hv.2⟩, fun hv => ⟨hv.1.elim id ?_, hv.2⟩⟩
    rintro rfl
    obtain ⟨n, hn, hlong⟩ := hv.2
    obtain rfl : ms = n := Except.ok.inj (hr.symm.trans hn)
    exact ((h.timeouts_iff _).mp (hk.resolve_left (Nat.not_lt.mpr hlong))).1
  · obtain ⟨hkeeps, hext, hm⟩ := nameTimeout_spec h.keeps hn
    refine ⟨⟨hkeeps.timeouts, hkeeps.data, hkeeps.taken, hkeeps.distinct⟩,
      hext.methods_eq.trans h.methods, hreadable, fun v => ?_, fun v => ?_, ?_, ?_⟩
    · simp only [Table.has_set, hext.timeouts_eq, Bool.or_eq_true, decide_eq_true_eq,
        exists_mem_concat, h.timeouts_iff]
      constructor
      · rintro (rfl | hv)
        · exact ⟨Or.inr rfl, ms, hr, hms⟩
        · exact ⟨Or.inl hv.1, hv.2⟩
      · rintro ⟨hv | rfl, hl⟩
        · exact Or.inr ⟨hv, hl⟩
        · exact Or.inl rfl
    · simp only [hext.data_eq, h.data_iff]
    · refine set_subset (by rw [hext.timeouts_eq]; exact hh) ?_ hm
      rw [hext.timeouts_eq]
      exact List.Subset.trans h.timeouts_subset hext.timeouts_subset
    · simp only [hext.data_eq]
      exact List.Subset.trans h.data_subset hext.data_subset

theorem Holds.addData (h : Holds context waits texts e) (content : Text) (hit : Hit) :
    Holds context waits (texts ++ [hit]) (addData content e hit) := by
  obtain ⟨hk, he⟩ | ⟨hl, hh, name, e₁, hn, he⟩ := addData_cases content e hit <;> rw [he]
  · refine { h with data_iff := fun v => ?_ }
    rw [exists_mem_concat, h.data_iff]
    refine ⟨fun hv => ⟨Or.inl hv.1, hv.2⟩, fun hv => ⟨hv.1.elim id ?_, hv.2⟩⟩
    rintro rfl
    rcases hk with hk | hk
    · rw [hv.2] at hk; cases hk
    · exact ((h.data_iff _).mp hk).1
  · obtain ⟨hkeeps, hext, hm⟩ := nameData_spec h.keeps hn
    refine ⟨⟨hkeeps.timeouts, hkeeps.data, hkeeps.taken, hkeeps.distinct⟩,
      hext.methods_eq.trans h.methods, h.readable, fun v => ?_, fun v => ?_, ?_, ?_⟩
    · simp only [hext.timeouts_eq, h.timeouts_iff]
    · simp only [Table.has_set, hext.data_eq, Bool.or_eq_true, decide_eq_true_eq,
        exists_mem_concat, h.data_iff]
      constructor
      · rintro (rfl | hv)
        · exact ⟨Or.inr rfl, hl⟩
        · exact ⟨Or.inl hv.1, hv.2⟩
      · rintro ⟨hv | rfl, hv'⟩
        · exact Or.inr ⟨hv, hv'⟩
        · exact Or.inl rfl
    · simp only [hext.timeouts_eq]
      exact List.Subset.trans h.timeouts_subset hext.timeouts_subset
    · refine set_subset (by rw [hext.data_eq]; exact hh) ?_ hm
      rw [hext.data_eq]
      exact List.Subset.trans h.data_subset hext.data_subset

/-! ### After all of them -/

theorem Holds.foldl : ∀ (hits : List Hit) {texts : List Hit} {e : Extraction},
    Holds context waits texts e →
      Holds context waits (texts ++ hits) (hits.foldl (Extraction.addData content) e)
  | [], texts, e, h => by simpa using h
  | hit :: hits, texts, e, h => by
      have := Holds.foldl hits (h.addData content hit)
      rwa [List.append_assoc, List.singleton_append] at this

theorem addTimeout_error {i : Interrupted} (h : Extraction.addTimeout content e hit = .error i) :
    i.context = e.context := by
  simp only [Extraction.addTimeout] at h
  cases hr : readNumeral (hit.group 1) with
  | error cause =>
      simp only [hr] at h
      rw [← Except.error.inj h]
  | ok ms =>
      simp only [hr] at h
      split at h <;> cases h

/-- What each wait keeps is true when all have been taken in, and also where a numeral could not be
read. -/
theorem foldlM_keeps {P : List Hit → Extraction → Prop}
    (step : ∀ {seen e hit e'}, P seen e → Extraction.addTimeout content e hit = .ok e' →
      P (seen ++ [hit]) e') : ∀ (hits seen : List Hit) {e : Extraction}, P seen e →
      (∀ e', hits.foldlM (Extraction.addTimeout content) e = .ok e' → P (seen ++ hits) e') ∧
      ∀ i, hits.foldlM (Extraction.addTimeout content) e = .error i →
        ∃ seen' e', P seen' e' ∧ i.context = e'.context
  | [], seen, e, h => by
      refine ⟨fun e' hs => ?_, fun i hs => by cases hs⟩
      obtain rfl : e = e' := Except.ok.inj hs
      rwa [List.append_nil]
  | hit :: hits, seen, e, h => by
      rw [List.foldlM_cons]
      cases ha : Extraction.addTimeout content e hit with
      | error i =>
          refine ⟨fun e' hs => by (cases hs), fun j hs => ⟨seen, e, h, ?_⟩⟩
          obtain rfl := Except.error.inj hs
          exact addTimeout_error ha
      | ok e₁ =>
          obtain ⟨hok, herror⟩ := foldlM_keeps step hits _ (step h ha)
          refine ⟨fun e' hs => ?_, herror⟩
          have := hok e' hs
          rwa [List.append_assoc, List.singleton_append] at this

/-- What each wait keeps is true of the names of a file before its quoted texts are taken in. -/
theorem exists_waits_of_ofText {P : List Hit → Extraction → Prop}
    (step : ∀ {seen e hit e'}, P seen e → Extraction.addTimeout content e hit = .ok e' →
      P (seen ++ [hit]) e') (h : P [] (start context)) (he : ofText content context = .ok e) :
    ∃ e₁, P (Literal.timeoutCall.findAll content) e₁ ∧
      e = (Literal.longText.findAll content).foldl (Extraction.addData content) e₁ := by
  unfold ofText at he
  cases hw : (Literal.timeoutCall.findAll content).foldlM (Extraction.addTimeout content)
      (start context) with
  | error i => rw [hw] at he; cases he
  | ok e₁ =>
      rw [hw] at he
      exact ⟨e₁, (foldlM_keeps step _ [] h).1 e₁ hw, (Except.ok.inj he).symm⟩

/-- What is true of the names of a file. -/
theorem holds_of_ofText (h : ofText content context = .ok e) :
    Holds context (Literal.timeoutCall.findAll content) (Literal.longText.findAll content) e := by
  obtain ⟨e₁, hwaits, rfl⟩ := exists_waits_of_ofText (P := fun seen e => Holds context seen [] e)
    (fun h ha => h.addTimeout ha) (holds_start context) h
  simpa using hwaits.foldl (Literal.longText.findAll content)

end Extraction
end SuiteAudit
