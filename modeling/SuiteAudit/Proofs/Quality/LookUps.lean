import SuiteAudit.Proofs.Literal.WaitCall
import SuiteAudit.Proofs.Pattern.Captures
import SuiteAudit.Proofs.Source.CaseCall
import SuiteAudit.Proofs.Source.Obscure
import SuiteAudit.Proofs.Source.Regions
import SuiteAudit.Proofs.Source.RepeatedLines
import SuiteAudit.Quality.Default

/-! # What the checks look up

The checks read groups of their hits, look names up in a table, take the first entry of a list and a
line by its number, and never ask whether there is one.  `Checks.Grounded` says that there always is,
so that the values which stand in for a missing one are never seen (`Checks.grounded`).  The ways in
which a check comes to a line number all give one of a line that there is (`Text.HasLine`): the line
of an offset, the first line of a block, the line of a finding, and the lines that share their text. -/

namespace SuiteAudit

/-! ### Line numbers -/

/-- A text has a line of this number. -/
def Text.HasLine (t : Text) (n : Int) : Prop := 1 ≤ n ∧ n ≤ (Text.lines t).length

instance (t : Text) (n : Int) : Decidable (t.HasLine n) := inferInstanceAs (Decidable (_ ∧ _))

namespace Text

theorem hasLine_one (t : Text) : t.HasLine 1 := by
  have h := length_lines t
  exact ⟨by omega, by omega⟩

/-- The line of an offset, also of one behind the end. -/
theorem hasLine_lineAt (t : Text) (offset : Nat) : t.HasLine (lineAt t offset) := by
  have hlines := length_lines t
  have hcount : (t.take offset).count '\n' ≤ t.count '\n' := (List.take_sublist offset t).count_le '\n'
  unfold HasLine lineAt countChar
  omega

end Text

variable {content : Text}

/-- A test case begins on a line of the text. -/
theorem hasLine_of_mem_casesOf {b : Block} (h : b ∈ casesOf content) : content.HasLine b.startLine := by
  obtain ⟨hstands, hopens, -⟩ := (tiles_scan .case 1 (Text.lines content)).of_mem (mem_blocksOf.mp h)
  have hfirst := hstands.start_le
  have hlast := hstands.endLine_lt
  have hle := hopens.startLine_le
  simp only [Region.span] at hfirst hlast hle
  exact ⟨hfirst, by omega⟩

/-- A finding is on a line of the text. -/
theorem hasLine_of_mem_commentFindings {f : CommentFinding} (h : f ∈ commentFindings content) :
    content.HasLine f.line := by
  obtain ⟨⟨line, index⟩, hmem, hf⟩ := List.mem_filterMap.mp h
  have hlt := List.snd_lt_of_mem_zipIdx hmem
  have hline : f.line = index + 1 := congrArg (·.line) (eq_of_commentFindingAt? hf).2
  unfold Text.HasLine
  omega

namespace DuplicateLine

/-- The lines that share a text are lines of the file, and there are as many as asked for. -/
theorem of_mem_find {least : Nat} {minLength : Int} {d : DuplicateLine}
    (h : d ∈ find content least minLength) :
    least ≤ d.lineNumbers.length ∧ ∀ n ∈ d.lineNumbers, content.HasLine n := by
  rw [find_eq_byPairs] at h
  obtain ⟨-, hnumbers, -, hleast⟩ := mem_byPairs.mp h
  refine ⟨hleast, fun n hn => ?_⟩
  obtain ⟨i, line, rfl, hline, -⟩ := mem_numbersOf.mp (hnumbers ▸ hn)
  obtain ⟨hi, -⟩ := List.getElem?_eq_some_iff.mp hline
  unfold Text.HasLine
  omega

end DuplicateLine

/-! ### What is looked up -/

namespace Checks

/-- Whatever the checks look up about a text is there. -/
structure Grounded (content : Text) : Prop where
  description : ∀ hit ∈ describedCase.findAll content, ∃ d, hit.group? 1 = some d
  letter : ∀ hit ∈ singleLetter.findAll content, ∃ c, hit.group? 1 = some [c]
  betterName : ∀ hit ∈ poorName.findAll content,
    ∃ name better, hit.group? 1 = some name ∧ poorNames.lookup name = some better
  variableName : ∀ hit ∈ pageObject.findAll content, ∃ written, hit.group? 1 = some written
  className : ∀ hit ∈ pageObject.findAll content, ∃ c rest, hit.group? 2 = some (c :: rest)
  dataLine : ∀ hit ∈ dataObject.findAll content,
    ∃ line, (Text.lines content)[Text.lineAt content hit.offset - 1]? = some line
  firstLine : ∀ d ∈ DuplicateLine.find content minRepetitions DuplicateLine.defaultMinLength,
    ∃ n rest, d.lineNumbers = n :: rest
  numeral : ∀ hit ∈ Literal.timeoutCall.findAll content,
    ∃ d, hit.group? 1 = some d ∧ d ≠ [] ∧ ∀ c ∈ d, Text.isDigit c = true
  value : ∀ hit ∈ Literal.longText.findAll content, ∃ v, hit.group? 2 = some v

variable {hit : Hit}

/-- A group with one body holds what this body takes. -/
theorem exists_takes_of_mem_findAll {p body : Pattern} {number : Nat} (ho : p.opens number = true)
    (hb : p.bodiesOf number = [body]) (h : hit ∈ p.findAll content) :
    ∃ v, hit.group? number = some v ∧ ∃ place groups groups', body.Takes place groups v groups' := by
  obtain ⟨v, hv, b, hmem, htakes⟩ := Pattern.exists_group_of_mem_findAll ho h
  rw [hb] at hmem
  obtain rfl := List.mem_singleton.mp hmem
  exact ⟨v, hv, htakes⟩

theorem singleLetter_bodies : singleLetter.bodiesOf 1 = [.one isAsciiLetter] := rfl

theorem poorName_bodies : poorName.bodiesOf 1 = [.words (poorNames.map (·.1))] := rfl

theorem pageObject_bodies : pageObject.bodiesOf 2 = [.seq .word (.lit "Page")] := rfl

theorem exists_letter (h : hit ∈ singleLetter.findAll content) : ∃ c, hit.group? 1 = some [c] := by
  obtain ⟨v, hv, _, _, _, c, _, -, -, rfl, -⟩ :=
    exists_takes_of_mem_findAll rfl singleLetter_bodies h
  exact ⟨c, hv⟩

/-- The names that the pattern takes are those of the table. -/
theorem exists_betterName (h : hit ∈ poorName.findAll content) :
    ∃ name better, hit.group? 1 = some name ∧ poorNames.lookup name = some better := by
  obtain ⟨name, hname, _, _, _, htakes⟩ := exists_takes_of_mem_findAll rfl poorName_bodies h
  have hmem : name ∈ poorNames.map (·.1) := (Opening.words_takes_iff.mp htakes).1
  have hall : ∀ name ∈ poorNames.map (·.1), (poorNames.lookup name).isSome := by decide
  obtain ⟨better, hbetter⟩ := Option.isSome_iff_exists.mp (hall name hmem)
  exact ⟨name, better, hname, hbetter⟩

/-- The name of a class ends in a fixed text, so it has a first character. -/
theorem exists_className (h : hit ∈ pageObject.findAll content) :
    ∃ c rest, hit.group? 2 = some (c :: rest) := by
  obtain ⟨v, hv, _, _, _, s₁, s₂, _, -, ⟨-, rfl, -⟩, rfl⟩ :=
    exists_takes_of_mem_findAll rfl pageObject_bodies h
  obtain ⟨c, rest, e⟩ := List.exists_cons_of_ne_nil (List.append_ne_nil_of_right_ne_nil s₁
    (List.cons_ne_nil 'P' ['a', 'g', 'e']))
  exact ⟨c, rest, hv.trans (congrArg some e)⟩

theorem exists_numeral (h : hit ∈ Literal.timeoutCall.findAll content) :
    ∃ d, hit.group? 1 = some d ∧ d ≠ [] ∧ ∀ c ∈ d, Text.isDigit c = true := by
  obtain ⟨d, w, o, hw, -, rfl⟩ := Literal.exists_of_mem_timeoutCall h
  exact ⟨d, rfl, hw.nonempty, hw.digits⟩

/-- The line of an offset is one of the lines. -/
theorem exists_line (content : Text) (offset : Nat) :
    ∃ line, (Text.lines content)[Text.lineAt content offset - 1]? = some line := by
  obtain ⟨h₁, h₂⟩ := Text.hasLine_lineAt content offset
  have hlt : Text.lineAt content offset - 1 < (Text.lines content).length := by omega
  exact ⟨_, List.getElem?_eq_getElem hlt⟩

theorem exists_firstLine {d : DuplicateLine}
    (h : d ∈ DuplicateLine.find content minRepetitions DuplicateLine.defaultMinLength) :
    ∃ n rest, d.lineNumbers = n :: rest := by
  have hleast : minRepetitions ≤ d.lineNumbers.length := (DuplicateLine.of_mem_find h).1
  exact List.exists_cons_of_ne_nil (List.ne_nil_of_length_pos (Nat.lt_of_lt_of_le (by decide) hleast))

/-- Whatever the checks look up is there, on every text. -/
theorem grounded (content : Text) : Grounded content where
  description _ h := (exists_takes_of_mem_findAll rfl rfl h).imp fun _ => And.left
  letter _ h := exists_letter h
  betterName _ h := exists_betterName h
  variableName _ h := (exists_takes_of_mem_findAll rfl rfl h).imp fun _ => And.left
  className _ h := exists_className h
  dataLine hit _ := exists_line content hit.offset
  firstLine _ h := exists_firstLine h
  numeral _ h := exists_numeral h
  value _ h := (exists_takes_of_mem_findAll rfl rfl h).imp fun _ => And.left

end Checks
end SuiteAudit
