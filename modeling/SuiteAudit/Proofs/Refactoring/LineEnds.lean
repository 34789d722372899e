import Mathlib.Data.List.Basic
import SuiteAudit.Proofs.Refactoring.Replacing
import SuiteAudit.Proofs.Text.Infix
import SuiteAudit.Proofs.Text.Utf8

/-! # Ends of lines

A text as it is read has no carriage return (`not_mem_unify`), and such a text is found again under
either ending (`unify_restore`).  The ending itself is found again too, unless a text without a line
feed hides it (`detect_restore_iff`).  A text on a disk is put back as it was exactly when its lines
all end alike (`restore_detect_iff`); how they end is read off the text by `ends`.

So a file keeps its ends of lines when it is rewritten and read again
(`SourceFile.keeps_line_ends`). -/

namespace SuiteAudit

namespace LineEnding

variable {t raw : Text} {c : Char} {e : LineEnding}

/-- The ends of the lines of a text, in order: a carriage return and a line feed side by side, or one
of them alone. -/
def ends : Text → List Text
  | [] => []
  | '\r' :: '\n' :: rest => ['\r', '\n'] :: ends rest
  | c :: rest => if c = '\r' ∨ c = '\n' then [c] :: ends rest else ends rest

/-! ### Reading -/

theorem not_mem_unify (t : Text) : '\r' ∉ unify t := by
  fun_induction unify t with
  | case1 => exact List.not_mem_nil
  | case2 rest ih => simpa using ih
  | case3 c rest _ ih =>
      by_cases hc : c = '\r'
      · simpa [hc] using ih
      · simpa [hc, Ne.symm hc] using ih

theorem unify_cons (hc : c ≠ '\r') (t : Text) : unify (c :: t) = c :: unify t := by
  rw [unify, if_neg hc]
  rintro rest rfl
  exact absurd rfl hc

theorem detect_eq_crlf_iff : detect raw = .crlf ↔ ['\r', '\n'] <:+: raw := by
  unfold detect
  rw [← Text.contains_iff]
  split
  · next h => simp [h]
  · next h => simp [h]

theorem detect_of_not_mem (h : '\r' ∉ raw) : detect raw = .lf := by
  cases hd : detect raw with
  | lf => rfl
  | crlf => exact absurd ((detect_eq_crlf_iff.mp hd).subset List.mem_cons_self) h

/-! ### Writing -/

theorem restore_newline (e : LineEnding) (t : Text) :
    restore e ('\n' :: t) = e.text ++ restore e t := Text.replaceChar_cons_self '\n' e.text t

theorem restore_cons (hc : c ≠ '\n') (e : LineEnding) (t : Text) :
    restore e (c :: t) = c :: restore e t := Text.replaceChar_cons hc e.text t

theorem restore_append (e : LineEnding) (s t : Text) :
    restore e (s ++ t) = restore e s ++ restore e t := Text.replaceChar_append '\n' e.text s t

theorem restore_lf (t : Text) : restore .lf t = t := by
  induction t with
  | nil => rfl
  | cons c t ih =>
      by_cases hc : c = '\n'
      · rw [hc, restore_newline, ih]
        rfl
      · rw [restore_cons hc, ih]

theorem restore_of_not_mem (h : '\n' ∉ t) (e : LineEnding) : restore e t = t :=
  Text.replaceChar_of_not_mem h e.text

/-! ### Reading what was written -/

theorem unify_restore (h : '\r' ∉ t) (e : LineEnding) : unify (restore e t) = t := by
  induction t with
  | nil => rfl
  | cons c t ih =>
      obtain ⟨hc, ht⟩ := not_or.mp fun h' => h (List.mem_cons.mpr h')
      by_cases hn : c = '\n'
      · rw [hn, restore_newline]
        cases e with
        | lf => exact (unify_cons (by decide) _).trans (congrArg ('\n' :: ·) (ih ht))
        | crlf => exact congrArg ('\n' :: ·) (ih ht)
      · rw [restore_cons hn, unify_cons (Ne.symm hc), ih ht]

/-- The ending of a written text is found again unless it stands nowhere in it. -/
theorem detect_restore_iff (h : '\r' ∉ t) :
    detect (restore e t) = e ↔ (e = .crlf → '\n' ∈ t) := by
  cases e with
  | lf =>
      rw [restore_lf, detect_of_not_mem h]
      exact ⟨fun _ => nofun, fun _ => rfl⟩
  | crlf =>
      constructor
      · intro hd _
        refine Classical.byContradiction fun hn => ?_
        rw [restore_of_not_mem hn, detect_of_not_mem h] at hd
        cases hd
      · intro hn
        obtain ⟨a, b, rfl⟩ := List.append_of_mem (hn rfl)
        rw [detect_eq_crlf_iff, restore_append, restore_newline]
        exact ⟨restore .crlf a, restore .crlf b, by simp [text]⟩

/-! ### Writing what was read -/

theorem restore_unify_iff (e : LineEnding) (raw : Text) :
    restore e (unify raw) = raw ↔ ∀ x ∈ ends raw, x = e.text := by
  fun_induction unify raw with
  | case1 => exact ⟨fun _ x hx => (by cases hx), fun _ => rfl⟩
  | case2 rest ih =>
      rw [restore_newline, ends, List.forall_mem_cons, ← ih]
      cases e with
      | lf => simp [text]
      | crlf => simp [text]
  | case3 c rest hpair ih =>
      have hends : ends (c :: rest) =
          if c = '\r' ∨ c = '\n' then [c] :: ends rest else ends rest := by
        rw [ends]
        exact hpair
      rw [hends]
      by_cases hr : c = '\r'
      · subst hr
        rw [if_pos rfl, if_pos (.inl rfl), restore_newline, List.forall_mem_cons]
        have hrest : ∀ s : Text, '\n' :: s ≠ rest := fun s hs => hpair s rfl hs.symm
        cases e with
        | lf => simp [text]
        | crlf => simp [text, hrest]
      by_cases hn : c = '\n'
      · subst hn
        rw [if_neg (by decide), if_pos (.inr rfl), restore_newline, List.forall_mem_cons, ← ih]
        cases e with
        | lf => simp [text]
        | crlf => simp [text]
      · rw [if_neg hr, if_neg (by simp [hr, hn]), restore_cons hn, ← ih]
        simp

/-- A text on a disk is put back as it was exactly when its lines all end alike. -/
theorem restore_detect_iff (raw : Text) :
    restore (detect raw) (unify raw) = raw ↔ ∃ e : LineEnding, ∀ x ∈ ends raw, x = e.text := by
  constructor
  · intro h
    exact ⟨_, (restore_unify_iff _ raw).mp h⟩
  · rintro ⟨e, he⟩
    have hraw : restore e (unify raw) = raw := (restore_unify_iff e raw).mpr he
    have hdetect := detect_restore_iff (e := e) (not_mem_unify raw)
    rw [hraw] at hdetect
    by_cases hshown : e = .crlf → '\n' ∈ unify raw
    · rw [hdetect.mpr hshown, hraw]
    · -- no line ends at all, so that every ending puts the text back
      have hnone : '\n' ∉ unify raw := fun hn => hshown fun _ => hn
      rw [restore_of_not_mem hnone] at hraw ⊢
      exact hraw

end LineEnding

variable {m : Machine} {path raw content : Text} {file : SourceFile}

/-- A source file is read from a path. -/
def Machine.Reads (m : Machine) (path : Text) (file : SourceFile) : Prop :=
  ((SourceFile.read path).run.run m).1 = .ok file

namespace SourceFile

/-! ### Reading and writing files -/

theorem reads_ofRaw (hnull : path.elem '\x00' = false) (h : m.Holds path (Utf8.encode raw))
    (hu : m.Untroubled 1) : m.Reads path (.ofRaw path raw) := by
  have htext : Utf8.decode (Utf8.encode raw) = .ok raw := Utf8.decode_eq_ok_iff.mpr rfl
  unfold Machine.Reads
  obtain ⟨-, raw', hraw, hrun⟩ | ⟨hnot, -⟩ := run_read hnull h
  · rw [hrun, Except.ok.inj (htext.symm.trans hraw)]
  · exact absurd ⟨hu, raw, htext⟩ hnot

/-- What is read stands for the text on the disk. -/
theorem exists_of_reads (h : m.Reads path file) : path.elem '\x00' = false ∧
    ∃ raw, m.Holds path (Utf8.encode raw) ∧ file = .ofRaw path raw := by
  have hnull : path.elem '\x00' = false := by
    cases hp : path.elem '\x00' with
    | false => rfl
    | true =>
        have hcall : (Machine.readFile path).run.run m = (.error .nullCharacter, m) := by
          rw [Machine.readFile, run_call, if_pos hp]
        unfold Machine.Reads read at h
        rw [runT_bind_error (runT_adapt_error hcall _)] at h
        cases h
  unfold Machine.Reads at h
  cases hbytes : m.disk.readFile m.folder path with
  | error fault =>
      obtain ⟨e, hrun⟩ := run_read_error hnull hbytes
      rw [hrun] at h
      cases h
  | ok bytes =>
      obtain ⟨-, raw, hraw, hrun⟩ | ⟨-, e, hrun⟩ := run_read hnull hbytes
      · rw [hrun] at h
        exact ⟨hnull, raw, Utf8.decode_eq_ok_iff.mp hraw ▸ hbytes, (Except.ok.inj h).symm⟩
      · rw [hrun] at h
        cases h

/-- Over a file that is there any bytes can be written. -/
theorem exists_overwritten (hnull : path.elem '\x00' = false) {old : Bytes} (h : m.Holds path old)
    (hu : m.Untroubled 2) (bytes : Bytes) :
    ∃ d, (Machine.writeFile path bytes).run.run m = (.ok (), m.after 2 d) ∧
      (m.after 2 d).Holds path bytes := by
  obtain ⟨emptied, hcreate⟩ := Disk.exists_writeFile h []
  have hwrites := Machine.run_writeFile hnull hcreate bytes
  generalize hwrite : (Machine.writeFile path bytes).run.run m = r at hwrites
  cases hwrites with
  | unopened htrouble => exact absurd (hu.mono (by decide)) htrouble
  | partly _ htrouble => exact absurd hu htrouble
  | written => exact ⟨_, rfl, Machine.readFile_of_writeFile hwrite⟩

/-- A text without a carriage return is read under the ending that it was written with, which it
shows unless no line of it ends. -/
theorem ofRaw_restore {e : LineEnding} (h : '\r' ∉ content) (hshown : e = .crlf → '\n' ∈ content) :
    ofRaw path (e.restore content) = ⟨path, content, e⟩ := by
  rw [ofRaw, LineEnding.unify_restore h, (LineEnding.detect_restore_iff h).mpr hshown]

/-! ### The result -/

/-- What reading and writing a path of a machine keeps of the ends of lines. -/
structure KeepsLineEnds (m : Machine) (path : Text) : Prop where
  /-- Every text on the disk is read. -/
  reads : path.elem '\x00' = false → ∀ raw, m.Holds path (Utf8.encode raw) → m.Untroubled 1 →
    m.Reads path (.ofRaw path raw)
  /-- What is read has no carriage return. -/
  unified : ∀ file, m.Reads path file → '\r' ∉ file.content
  /-- A text without carriage returns is written over what was read, with the ending of that, and
  is read again with the same ending, which the text has to show when it is both characters. -/
  rewritten : ∀ file content, m.Reads path file → '\r' ∉ content →
    (file.ending = .crlf → '\n' ∈ content) → m.Untroubled 3 →
    ∃ d, (Machine.writeFile path (bytesOf file.ending content)).run.run m = (.ok (), m.after 2 d) ∧
      (m.after 2 d).Reads path ⟨path, content, file.ending⟩
  /-- So is the new text of a proposal that is applied. -/
  applied : ∀ thresholds (p : Proposal) outcome, p.filePath = path →
    (p.applied thresholds m).1 = .ok outcome → outcome.applied = true → '\r' ∉ p.after →
    ∃ raw, m.Holds path (Utf8.encode raw) ∧
      ((LineEnding.detect raw = .crlf → '\n' ∈ p.after) → (p.applied thresholds m).2.Untroubled 1 →
        (p.applied thresholds m).2.Reads path ⟨path, p.after, LineEnding.detect raw⟩)
  /-- What was read is written back as it was exactly when the lines on the disk all end alike. -/
  unchanged_iff : ∀ file raw, m.Reads path file → m.Holds path (Utf8.encode raw) → m.Untroubled 2 →
    ∃ d, (Machine.writeFile path (bytesOf file.ending file.content)).run.run m =
        (.ok (), m.after 2 d) ∧
      ((m.after 2 d).Holds path (Utf8.encode raw) ↔
        ∃ e : LineEnding, ∀ x ∈ LineEnding.ends raw, x = e.text)

/-- A rewritten file keeps its ends of lines. -/
theorem keeps_line_ends (m : Machine) (path : Text) : KeepsLineEnds m path where
  reads hnull raw h hu := reads_ofRaw hnull h hu
  unified file h := by
    obtain ⟨-, raw, -, rfl⟩ := exists_of_reads h
    exact LineEnding.not_mem_unify raw
  rewritten file content h hcr hshown hu := by
    obtain ⟨hnull, raw, hraw, -⟩ := exists_of_reads h
    obtain ⟨d, hwrite, hnew⟩ :=
      exists_overwritten hnull hraw (hu.mono (by decide)) (bytesOf file.ending content)
    have hread : (m.after 2 d).Untroubled 1 := (Machine.untroubled_add.mp hu).2
    refine ⟨d, hwrite, ?_⟩
    rw [← ofRaw_restore hcr hshown]
    exact reads_ofRaw hnull hnew hread
  applied thresholds p outcome hpath h hdone hcr := by
    subst hpath
    obtain ⟨place, bytes, -, hplace, hbytes, hrun⟩ := Proposal.exists_replaces h (.inl hdone)
    have hnull := Proposal.null_of_resolved hplace
    generalize (p.applied thresholds m).2 = m' at hrun ⊢
    cases hrun with
    | unopened | opened => cases hdone
    | @replaced raw d _ _ htext hnew _ =>
        refine ⟨raw, Utf8.decode_eq_ok_iff.mp htext ▸ hbytes, fun hshown hu => ?_⟩
        rw [← ofRaw_restore hcr hshown]
        exact reads_ofRaw hnull hnew hu
  unchanged_iff file raw h hraw hu := by
    obtain ⟨hnull, raw', hraw', rfl⟩ := exists_of_reads h
    obtain rfl := Utf8.encode_inj.mp (hraw.unique hraw')
    obtain ⟨d, hwrite, hnew⟩ := exists_overwritten hnull hraw hu
      (bytesOf (LineEnding.detect raw) (LineEnding.unify raw))
    refine ⟨d, hwrite, ?_⟩
    rw [← LineEnding.restore_detect_iff, ← Utf8.encode_inj]
    exact ⟨fun h => hnew.unique h, fun h => h ▸ hnew⟩

end SourceFile

/-- A file of two lines that end with both characters. -/
def crlfLines : Machine where
  disk := [([("a.spec.ts" : Text)], .file (Utf8.encode "a\r\nb\r\n"))]

/-- A third line is written with the same ending. -/
theorem crlfLines_kept : crlfLines.Reads "a.spec.ts" ⟨"a.spec.ts", "a\nb\n", .crlf⟩ ∧
    ∃ d, (Machine.writeFile "a.spec.ts" (SourceFile.bytesOf .crlf "a\nb\nc\n")).run.run crlfLines =
        (.ok (), crlfLines.after 2 d) ∧
      (crlfLines.after 2 d).Reads "a.spec.ts" ⟨"a.spec.ts", "a\nb\nc\n", .crlf⟩ := by
  have hholds : crlfLines.Holds "a.spec.ts" (Utf8.encode "a\r\nb\r\n") := by
    unfold Machine.Holds
    cbv
  have hkeeps := SourceFile.keeps_line_ends crlfLines "a.spec.ts"
  have hfile : SourceFile.ofRaw "a.spec.ts" "a\r\nb\r\n" = ⟨"a.spec.ts", "a\nb\n", .crlf⟩ := by
    decide +kernel
  have hreads := hfile ▸ hkeeps.reads (by decide) _ hholds fun _ _ => rfl
  have hnew : '\r' ∉ ("a\nb\nc\n" : Text) := by decide
  have hshown : '\n' ∈ ("a\nb\nc\n" : Text) := by decide
  have hu : crlfLines.Untroubled 3 := fun _ _ => rfl
  obtain ⟨d, hwrite, hagain⟩ := hkeeps.rewritten _ _ hreads hnew (fun _ => hshown) hu
  exact ⟨hreads, d, hwrite, hagain⟩

end SuiteAudit
