import Mathlib.Data.Finset.Card
import Mathlib.Data.List.Dedup
import SuiteAudit.Proofs.Table
import SuiteAudit.Source.Duplicate

/-! # Repeated lines

Lines are put into buckets by their trimmed text (`buckets_eq`).  The duplicates that come of the
buckets are those found by comparing every pair of lines (`find_eq_byPairs`): one for each text that
enough lines share, with all the lines that have it (`Reports`).  So fewer are found where more lines
are asked for, and the duplicates are counted by their texts (`find_reports`). -/

namespace SuiteAudit
namespace DuplicateLine

variable {lines : List Text} {minLength : Int} {least n : Nat} {text : Text}

/-- The numbers of the lines that have a text, when every line is compared with it. -/
def numbersOf (lines : List Text) (text : Text) : List Nat :=
  ((lines.zipIdx 1).filter fun p => Text.trim p.1 = text).map (·.2)

/-- The duplicates found by comparing every pair of lines: a line that counts is reported when it is
the first of enough lines with its text. -/
def byPairs (lines : List Text) (least : Nat) (minLength : Int) : List DuplicateLine :=
  ((lines.zipIdx 1).filter fun p => counts minLength (Text.trim p.1) ∧
      (numbersOf lines (Text.trim p.1)).head? = some p.2 ∧
      least ≤ (numbersOf lines (Text.trim p.1)).length).map fun p =>
    ⟨Text.trim p.1, numbersOf lines (Text.trim p.1)⟩

/-! ### The lines that share a text -/

theorem pairwise_numbered (lines : List Text) :
    (lines.zipIdx 1).Pairwise fun p q => p.2 < q.2 := by
  rw [← List.pairwise_map (f := Prod.snd), List.zipIdx_map_snd]
  exact List.pairwise_lt_range'

theorem nodup_numbers (lines : List Text) : ((lines.zipIdx 1).map Prod.snd).Nodup := by
  rw [List.zipIdx_map_snd]
  exact List.nodup_range'

theorem mem_numbersOf : n ∈ numbersOf lines text ↔
    ∃ i line, n = i + 1 ∧ lines[i]? = some line ∧ Text.trim line = text := by
  simp only [numbersOf, List.mem_map, List.mem_filter, decide_eq_true_iff, Prod.exists,
    List.mk_mem_zipIdx_iff_le_and_getElem?_sub]
  constructor
  · rintro ⟨line, _, ⟨⟨hle, hline⟩, htrim⟩, rfl⟩
    exact ⟨_, line, (Nat.sub_add_cancel hle).symm, hline, htrim⟩
  · rintro ⟨i, line, rfl, hline, htrim⟩
    exact ⟨line, i + 1, ⟨⟨Nat.le_add_left 1 i, hline⟩, htrim⟩, rfl⟩

/-- The numbers stand in order, each once. -/
theorem pairwise_numbersOf (lines : List Text) (text : Text) :
    (numbersOf lines text).Pairwise (· < ·) :=
  List.pairwise_map.mpr ((pairwise_numbered lines).filter _)

theorem length_numbersOf (lines : List Text) (text : Text) :
    (numbersOf lines text).length = lines.countP fun line => Text.trim line = text := by
  conv => rhs; rw [← List.zipIdx_map_fst 1 lines]
  rw [numbersOf, List.length_map, ← List.countP_eq_length_filter, List.countP_map]
  rfl

/-- A line is the first with its text exactly when no line before it is found. -/
theorem head?_numbersOf {p : Text × Nat} (hp : p ∈ lines.zipIdx 1) :
    (numbersOf lines (Text.trim p.1)).head? = some p.2 ↔
      (lines.zipIdx 1).find? (fun q => Text.trim q.1 = Text.trim p.1) = some p := by
  rw [numbersOf, List.head?_map, List.head?_filter]
  refine ⟨fun h => ?_, fun h => by rw [h]; rfl⟩
  obtain ⟨q, hq, hnumber⟩ := Option.map_eq_some_iff.mp h
  rw [hq, List.inj_on_of_nodup_map (nodup_numbers lines) (List.mem_of_find?_eq_some hq) hp hnumber]

/-! ### Buckets -/

/-- The texts that count stand in the order of their first lines, each with all lines that have it. -/
theorem buckets_eq (minLength : Int) (lines : List Text) : buckets minLength lines =
    (((lines.zipIdx 1).filter fun p => counts minLength (Text.trim p.1)).map
      fun p => Text.trim p.1).eraseDups.map fun text => (text, numbersOf lines text) := by
  have hgroups := Table.foldl_modify_append (fun p : Text × Nat => Text.trim p.1) (fun p => [p.2])
    ((lines.zipIdx 1).filter fun p => counts minLength (Text.trim p.1))
  rw [List.foldl_filter] at hgroups
  refine hgroups.trans (List.map_congr_left fun text htext => ?_)
  obtain ⟨p, hp, rfl⟩ := List.mem_map.mp (List.mem_eraseDups.mp htext)
  have hcounts := (List.mem_filter.mp hp).2
  rw [List.filter_filter, ← List.map_eq_flatMap, numbersOf]
  congr 2
  refine List.filter_congr fun q _ => ?_
  rw [Bool.and_eq_left_iff_imp, decide_eq_true_iff]
  exact fun h => h ▸ hcounts

/-- Buckets find what comparing every pair of lines finds. -/
theorem find_eq_byPairs (content : Text) (least : Nat) (minLength : Int) :
    find content least minLength = byPairs (Text.lines content) least minLength := by
  have hnumbered : ((Text.lines content).zipIdx 1).Nodup := (nodup_numbers _).of_map
  rw [find, buckets_eq, eraseDups_map_eq _ (hnumbered.filter _), List.map_map, List.filter_map,
    List.map_map, List.filter_filter, List.filter_filter]
  refine congrArg (List.map _) (List.filter_congr fun p hp => ?_)
  -- a line that has the text of one that counts counts as well
  have hfind (hcounts : counts minLength (Text.trim p.1) = true) :
      (((Text.lines content).zipIdx 1).filter fun q => counts minLength (Text.trim q.1)).find?
          (fun q => Text.trim q.1 = Text.trim p.1) =
        ((Text.lines content).zipIdx 1).find? fun q => Text.trim q.1 = Text.trim p.1 := by
    rw [List.find?_filter]
    refine congrArg (List.find? · _) (funext fun q => decide_eq_decide.mpr ?_)
    rw [decide_eq_true_iff, and_iff_right_iff_imp]
    exact fun h => h ▸ hcounts
  rw [Bool.eq_iff_iff]
  simp only [Function.comp_apply, Bool.and_eq_true, decide_eq_true_eq, head?_numbersOf hp]
  constructor
  · rintro ⟨⟨hleast, hfirst⟩, hcounts⟩
    exact ⟨hcounts, (hfind hcounts).symm.trans hfirst, hleast⟩
  · rintro ⟨hcounts, hfirst, hleast⟩
    exact ⟨⟨hleast, (hfind hcounts).trans hfirst⟩, hcounts⟩

/-! ### What is reported -/

/-- The duplicates of some lines: one for each text that counts and that enough lines have, in the
order of the first of these, with the numbers of all of them. -/
structure Reports (lines : List Text) (least : Nat) (minLength : Int)
    (found : List DuplicateLine) : Prop where
  once : (found.map (·.text)).Nodup
  text_iff : ∀ text, text ∈ found.map (·.text) ↔
    minLength < text.length ∧ isCommentLine text = false ∧
      least ≤ lines.countP fun line => Text.trim line = text
  line_iff : ∀ d ∈ found, ∀ n, n ∈ d.lineNumbers ↔
    ∃ i line, n = i + 1 ∧ lines[i]? = some line ∧ Text.trim line = d.text
  increasing : ∀ d ∈ found, d.lineNumbers.Pairwise (· < ·)
  inOrder : found.Pairwise fun d e => ∃ m ∈ d.lineNumbers, ∀ n ∈ e.lineNumbers, m < n

theorem counts_iff : counts minLength text = true ↔
    minLength < text.length ∧ isCommentLine text = false := by
  simp [counts]

theorem mem_byPairs {d : DuplicateLine} : d ∈ byPairs lines least minLength ↔
    counts minLength d.text = true ∧ d.lineNumbers = numbersOf lines d.text ∧
      d.lineNumbers ≠ [] ∧ least ≤ d.lineNumbers.length := by
  simp only [byPairs, List.mem_map, List.mem_filter, decide_eq_true_iff]
  constructor
  · rintro ⟨p, ⟨-, hcounts, hfirst, hleast⟩, rfl⟩
    exact ⟨hcounts, rfl, List.ne_nil_of_mem (List.mem_of_head? hfirst), hleast⟩
  · rintro ⟨hcounts, hnumbers, hne, hleast⟩
    obtain ⟨n, rest, e⟩ := List.exists_cons_of_ne_nil hne
    obtain ⟨i, line, hn, hline, htrim⟩ :=
      mem_numbersOf.mp (hnumbers ▸ e ▸ List.mem_cons_self : n ∈ numbersOf lines d.text)
    refine ⟨(line, n), ⟨?_, ?_⟩, ?_⟩
    · rw [List.mk_mem_zipIdx_iff_le_and_getElem?_sub, hn]
      exact ⟨Nat.le_add_left 1 i, hline⟩
    · simp only [htrim, ← hnumbers, e]
      exact ⟨hcounts, rfl, e ▸ hleast⟩
    · simp only [htrim, ← hnumbers]

/-- Of two entries the one that begins first comes first, and their texts differ. -/
theorem pairwise_byPairs (lines : List Text) (least : Nat) (minLength : Int) :
    (byPairs lines least minLength).Pairwise fun d e =>
      d.text ≠ e.text ∧ ∃ m ∈ d.lineNumbers, ∀ n ∈ e.lineNumbers, m < n := by
  refine List.pairwise_map.mpr
    (((pairwise_numbered lines).filter _).imp_of_mem fun {p q} hp hq hlt => ?_)
  obtain ⟨-, hpfirst, -⟩ := of_decide_eq_true (List.mem_filter.mp hp).2
  obtain ⟨-, hqfirst, -⟩ := of_decide_eq_true (List.mem_filter.mp hq).2
  refine ⟨fun htext => ?_, p.2, List.mem_of_head? hpfirst, fun n hn => ?_⟩
  · have hnumber : p.2 = q.2 := by
      have htext : Text.trim p.1 = Text.trim q.1 := htext
      rw [htext, hqfirst] at hpfirst
      exact (Option.some.inj hpfirst).symm
    omega
  · obtain ⟨rest, e⟩ := List.head?_eq_some_iff.mp hqfirst
    have hsorted := pairwise_numbersOf lines (Text.trim q.1)
    have hn : n ∈ numbersOf lines (Text.trim q.1) := hn
    rw [e] at hsorted hn
    rcases List.mem_cons.mp hn with rfl | hn
    · exact hlt
    · exact hlt.trans ((List.pairwise_cons.mp hsorted).1 n hn)

theorem reports_byPairs (hleast : 0 < least) :
    Reports lines least minLength (byPairs lines least minLength) where
  once := List.pairwise_map.mpr ((pairwise_byPairs lines least minLength).imp And.left)
  text_iff text := by
    rw [List.mem_map, ← and_assoc, ← counts_iff, ← length_numbersOf]
    constructor
    · rintro ⟨d, hd, rfl⟩
      obtain ⟨hcounts, hnumbers, -, hlength⟩ := mem_byPairs.mp hd
      exact ⟨hcounts, hnumbers ▸ hlength⟩
    · rintro ⟨hcounts, hlength⟩
      exact ⟨⟨text, numbersOf lines text⟩, mem_byPairs.mpr ⟨hcounts, rfl,
        List.length_pos_iff.mp (Nat.lt_of_lt_of_le hleast hlength), hlength⟩, rfl⟩
  line_iff d hd n := by rw [(mem_byPairs.mp hd).2.1, mem_numbersOf]
  increasing d hd := by
    rw [(mem_byPairs.mp hd).2.1]
    exact pairwise_numbersOf lines d.text
  inOrder := (pairwise_byPairs lines least minLength).imp And.right

/-- The more lines are asked for the fewer duplicates are found. -/
theorem find_sublist (content : Text) (minLength : Int) {least more : Nat} (h : least ≤ more) :
    (find content more minLength).Sublist (find content least minLength) := by
  refine List.Sublist.map _ (List.monotone_filter_right _ fun p hp => ?_)
  rw [decide_eq_true_eq] at hp ⊢
  exact h.trans hp

/-- Buckets find the same as comparing every pair of lines: one entry for each text of more than
`minLength` characters, no comment, that at least `least` lines have, in the order of their first
lines, with all of its lines.  The entries for more lines are among those for fewer, and the
duplicated lines of a text are counted by their texts. -/
theorem find_reports (content : Text) (minLength : Int) {least : Nat} (hleast : 2 ≤ least) :
    find content least minLength = byPairs (Text.lines content) least minLength ∧
    Reports (Text.lines content) least minLength (find content least minLength) ∧
    (∀ more, least ≤ more →
      (find content more minLength).Sublist (find content least minLength)) ∧
    count content = (((Text.lines content).map Text.trim).toFinset.filter fun text =>
      counts defaultMinLength text = true ∧
        2 ≤ (Text.lines content).countP fun line => Text.trim line = text).card := by
  have hreports : ∀ {least : Nat} (minLength : Int), 2 ≤ least →
      Reports (Text.lines content) least minLength (find content least minLength) := by
    intro least minLength h
    rw [find_eq_byPairs]
    exact reports_byPairs (by omega)
  refine ⟨find_eq_byPairs content least minLength, hreports minLength hleast,
    fun more => find_sublist content minLength, ?_⟩
  have htexts := hreports defaultMinLength (Nat.le_refl 2)
  rw [count, ← List.length_map (·.text), ← List.toFinset_card_of_nodup htexts.once]
  congr 1
  ext text
  rw [List.mem_toFinset, htexts.text_iff, ← and_assoc, ← counts_iff, Finset.mem_filter,
    List.mem_toFinset, List.mem_map]
  refine ⟨fun h => ⟨?_, h⟩, And.right⟩
  have hpos : 0 < (Text.lines content).countP fun line => Text.trim line = text := by omega
  obtain ⟨line, hline, htrim⟩ := List.countP_pos_iff.mp hpos
  exact ⟨line, hline, of_decide_eq_true htrim⟩

/-- A call that stands twice, once further in, and a comment that stands twice. -/
def savedTwice : Text :=
  "await page.click('#save');\n// saves what was entered\n  await page.click('#save');\n" ++
    "// saves what was entered"

theorem savedTwice_reports : 2 ≤ 2 ∧
    find savedTwice 2 20 = [⟨"await page.click('#save');", [1, 3]⟩] ∧
    find savedTwice 2 20 = byPairs (Text.lines savedTwice) 2 20 ∧
    Reports (Text.lines savedTwice) 2 20 (find savedTwice 2 20) ∧
    (find savedTwice 3 20).Sublist (find savedTwice 2 20) ∧ count savedTwice = 1 := by
  obtain ⟨hpairs, hreports, hfewer, -⟩ := find_reports savedTwice 20 (Nat.le_refl 2)
  exact ⟨Nat.le_refl 2, by decide +kernel, hpairs, hreports, hfewer 3 (by decide), by decide +kernel⟩

end DuplicateLine
end SuiteAudit
