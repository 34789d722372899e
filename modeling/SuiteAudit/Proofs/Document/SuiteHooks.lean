import SuiteAudit.Proofs.Document.DocumentedCases

/-! # Documented hooks

What a document says about the hooks of a suite it takes from the first hook of the file, which a
scan for hooks finds (`hookLines?_eq_some_iff`).  A hook and a suite lie one within the other or
share no line, so such a hook is one of the suite, or of the whole file, unless another suite holds
it or it holds a suite (`belongs_iff`). -/

namespace SuiteAudit

/-- The lines between the first and the last line of a block, trimmed and without empty ones. -/
def Block.innerTexts (b : Block) : List Text :=
  (b.bodyLines.map Text.trim).filter fun line => !line.isEmpty

/-- What a suite says about the hooks of a kind: nothing about those that run once. -/
def SuiteDoc.hookLines? (d : SuiteDoc) : Hook → Option (List Text)
  | .beforeEach => d.setup?
  | .afterEach => d.teardown?
  | .beforeAll | .afterAll => none

/-- A hook runs around each case. -/
def Hook.IsForEach (h : Hook) : Prop := h = .beforeEach ∨ h = .afterEach

theorem hookLines?_eq_some_iff {content : Text} {h : Hook} {lines : List Text} :
    Document.hookLines? content h = some lines ↔
      ∃ b, (hooksOf content h).head? = some b ∧ b.innerTexts = lines ∧ lines ≠ [] := by
  unfold Document.hookLines?
  cases hhooks : hooksOf content h with
  | nil => simp
  | cons b rest =>
      simp only [List.head?_cons, Option.some.injEq, exists_eq_left']
      unfold Block.innerTexts
      cases (b.bodyLines.map Text.trim).filter fun line => !line.isEmpty with
      | nil =>
          constructor
          · rintro ⟨⟩
          · rintro ⟨rfl, hne⟩
            exact absurd rfl hne
      | cons t ts =>
          constructor
          · rintro ⟨⟩
            exact ⟨rfl, List.cons_ne_nil t ts⟩
          · rintro ⟨rfl, -⟩
            rfl

/-- All suites of a document say the same about hooks. -/
theorem Document.hookLines?_of_mem {content path : Text} {now : Timestamp} {d : SuiteDoc}
    (hd : d ∈ (ofText content path now).suites) {h : Hook} (hh : h.IsForEach) :
    d.hookLines? h = Document.hookLines? content h := by
  have hd : d ∈ suiteDocs content := hd
  have hall : d.setup? = Document.hookLines? content .beforeEach ∧
      d.teardown? = Document.hookLines? content .afterEach := by
    unfold suiteDocs at hd
    split at hd
    · rw [List.mem_singleton.mp hd]
      exact ⟨rfl, rfl⟩
    · obtain ⟨s, -, rfl⟩ := List.mem_map.mp hd
      exact ⟨rfl, rfl⟩
  rcases hh with rfl | rfl
  · exact hall.1
  · exact hall.2

/-- The documented suites are those of the file, if it has any. -/
theorem Document.names_suites (content path : Text) (now : Timestamp) (h : suitesOf content ≠ []) :
    (ofText content path now).suites.map (·.name) = (suitesOf content).map (·.block.name) := by
  change (suiteDocs content).map (·.name) = _
  unfold suiteDocs
  cases hs : suitesOf content with
  | nil => exact absurd hs h
  | cons s rest => simp

/-- A hook is one of a suite, or of the whole file, just when no other suite holds it and it holds
no suite. -/
theorem belongs_iff {content : Text} {h : Hook} {b : Block} (hb : b ∈ hooksOf content h) {s : Suite}
    (hs : s ∈ suitesOf content) :
    (b.Within s.block ∨ ∀ t ∈ suitesOf content, b.Apart t.block) ↔
      ∀ t ∈ suitesOf content, (b.Within t.block → t = s) ∧ ¬ t.block.NestedIn b := by
  have hhooks := tiles_scan (.hook h.name) 1 (Text.lines content)
  have hsuites := tiles_scan .suite 1 (Text.lines content)
  have hle : b.startLine ≤ b.endLine := (hhooks.of_mem (mem_blocksOf.mp hb)).2.1.startLine_le
  have hsle : ∀ t ∈ suitesOf content, t.block.startLine ≤ t.block.endLine := fun t ht =>
    (hsuites.of_mem (block_mem_of_mem_suitesOf ht)).2.1.startLine_le
  have hone : ∀ t ∈ suitesOf content, ∀ n, t.block.startLine ≤ n → n ≤ t.block.endLine →
      s.block.startLine ≤ n → n ≤ s.block.endLine → t = s := fun t ht n h1 h2 h3 h4 =>
    eq_of_shared_line ht hs ⟨h1, h2⟩ ⟨h3, h4⟩
  constructor
  · rintro (⟨hlow, hhigh⟩ | hapart) t ht
    · refine ⟨fun ⟨hlow', hhigh'⟩ => ?_, fun ⟨hlow', hhigh'⟩ => ?_⟩
      · exact hone t ht b.startLine hlow' (by omega) hlow (by omega)
      · have := hsle t ht
        have hts : t = s := hone t ht t.block.startLine (by omega) (by omega) (by omega) (by omega)
        rw [hts] at hlow'
        omega
    · have := hsle t ht
      have hapart := hapart t ht
      unfold Block.Apart at hapart
      refine ⟨fun ⟨hlow', hhigh'⟩ => ?_, fun ⟨hlow', hhigh'⟩ => ?_⟩ <;> omega
  · intro hall
    by_cases hwithin : b.Within s.block
    · exact Or.inl hwithin
    · refine Or.inr fun t ht => ?_
      obtain ⟨hother, hholds⟩ := hall t ht
      have hlaid := hhooks.within_or_apart hsuites (mem_blocksOf.mp hb)
        (block_mem_of_mem_suitesOf ht)
      rcases hlaid with hwithin' | hnested | hapart
      · rw [hother hwithin'] at hwithin'
        exact absurd hwithin' hwithin
      · exact absurd hnested hholds
      · exact hapart

/-- A suite in a document says about the hooks that run around each case what stands in the first of
them in the file, if anything does.  This one lies in the suite, or outside all suites, just when it
lies in no other suite and holds none. -/
theorem hooks_of_suites (content path : Text) (now : Timestamp) (h : Hook) (hh : h.IsForEach) :
    (suitesOf content ≠ [] → (Document.ofText content path now).suites.map (·.name) =
      (suitesOf content).map (·.block.name)) ∧
    (∀ d ∈ (Document.ofText content path now).suites, ∀ lines, d.hookLines? h = some lines ↔
      ∃ b, (hooksOf content h).head? = some b ∧ b.innerTexts = lines ∧ lines ≠ []) ∧
    ∀ b, (hooksOf content h).head? = some b → ∀ s ∈ suitesOf content,
      ((b.Within s.block ∨ ∀ t ∈ suitesOf content, b.Apart t.block) ↔
        ∀ t ∈ suitesOf content, (b.Within t.block → t = s) ∧ ¬ t.block.NestedIn b) := by
  refine ⟨Document.names_suites content path now, fun d hd lines => ?_, fun b hb s hs => ?_⟩
  · rw [Document.hookLines?_of_mem hd hh, hookLines?_eq_some_iff]
  · exact belongs_iff (List.mem_of_mem_head? hb) hs

/-- A hook and two suites behind it. -/
def fileHookContent : Text := "beforeEach(() => \x7b\n  reset();\n\n\x7d);\n" ++
  "describe('A', () => \x7b\n\x7d);\ndescribe('B', () => \x7b\n\x7d);"

/-- Both suites are documented with the hook, which is one of the whole file. -/
theorem hooks_of_two_suites : Hook.IsForEach .beforeEach ∧ suitesOf fileHookContent ≠ [] ∧
    (Document.ofText fileHookContent [] { year := 2024, month := 5, day := 1 }).suites.map (·.name) =
      [("A" : Text), "B"] ∧
    (∀ d ∈ (Document.ofText fileHookContent [] { year := 2024, month := 5, day := 1 }).suites,
      d.hookLines? .beforeEach = some [("reset();" : Text)]) ∧
    ∃ b, (hooksOf fileHookContent .beforeEach).head? = some b ∧ ∀ s ∈ suitesOf fileHookContent,
      b.Within s.block ∨ ∀ t ∈ suitesOf fileHookContent, b.Apart t.block := by
  have hne : suitesOf fileHookContent ≠ [] := by
    rw [ne_eq, ← List.length_eq_zero_iff]
    decide +kernel
  obtain ⟨hnames, hlines, hbelongs⟩ := hooks_of_suites fileHookContent []
    { year := 2024, month := 5, day := 1 } .beforeEach (Or.inl rfl)
  obtain ⟨b, hb, htexts⟩ : ∃ b, (hooksOf fileHookContent .beforeEach).head? = some b ∧
      b.innerTexts = [("reset();" : Text)] := by
    have h : (hooksOf fileHookContent .beforeEach).head?.map Block.innerTexts =
        some [("reset();" : Text)] := by
      decide +kernel
    exact Option.map_eq_some_iff.mp h
  have hapart : ∀ b ∈ hooksOf fileHookContent .beforeEach, ∀ t ∈ suitesOf fileHookContent,
      ¬ b.Within t.block ∧ ¬ t.block.NestedIn b := by
    decide +kernel
  refine ⟨Or.inl rfl, hne, ?_, fun d hd => ?_, b, hb, fun s hs => ?_⟩
  · rw [hnames hne]
    decide +kernel
  · exact (hlines d hd _).mpr ⟨b, hb, htexts, List.cons_ne_nil _ _⟩
  · refine (hbelongs b hb s hs).mpr fun t ht => ?_
    obtain ⟨hwithin, hholds⟩ := hapart b (List.mem_of_mem_head? hb) t ht
    exact ⟨fun h => absurd h hwithin, hholds⟩

/-- Two suites, the first of which has a hook. -/
def sharedHookContent : Text := "describe('A', () => \x7b\n  beforeEach(() => \x7b\n    reset();\n" ++
  "  \x7d);\n\x7d);\ndescribe('B', () => \x7b\n\x7d);"

/-- The second suite is documented with the hook of the first one. -/
theorem foreign_hook_is_given : ∃ s ∈ suitesOf sharedHookContent,
    ∃ d ∈ (Document.ofText sharedHookContent [] { year := 2024, month := 5, day := 1 }).suites,
      d.name = s.block.name ∧ d.hookLines? .beforeEach = some [("reset();" : Text)] ∧
      ∀ b ∈ hooksOf sharedHookContent .beforeEach,
        ¬ (b.Within s.block ∨ ∀ t ∈ suitesOf sharedHookContent, b.Apart t.block) := by
  decide +kernel

end SuiteAudit
