import SuiteAudit.Proofs.Disk.Ways
import SuiteAudit.Proofs.Disk.Work

/-! # Written files

A file that was written holds what was written to it: the names of its path lead to the same place
as before, for only the entry there was changed, and it was that of a file or none
(`IsWritten.reaches`).  So the path reads back the bytes (`readFile_of_writeFile`). -/

namespace SuiteAudit.Disk

variable {d d' : Disk} {ending : Ending} {links : Nat} {folder at' place other : Location}
  {names : List Text} {path : Text} {entry : Entry} {e : Option Entry} {bytes : Bytes}

theorem entry?_set_self (h : place ≠ []) : entry? (Table.set place entry d) place = some entry := by
  unfold entry?
  rw [if_neg (by simpa using h), Table.get?_set_self]

theorem entry?_set_of_ne (h : other ≠ place) :
    entry? (Table.set place entry d) other = entry? d other := by
  unfold entry?
  rw [Table.get?_set_of_ne h]

/-- There is a file at a place, or nothing. -/
def IsFree (d : Disk) (place : Location) : Prop :=
  d.entry? place = none ∨ ∃ bytes, d.entry? place = some (.file bytes)

theorem IsFree.ne_of_folder (h : d.IsFree place) (ho : d.entry? other = some .folder) :
    other ≠ place := by
  rintro rfl
  rcases h with h | ⟨bytes, h⟩ <;> rw [ho] at h <;> cases h

theorem IsFree.ne_of_link {target : Text} (h : d.IsFree place)
    (ho : d.entry? other = some (.link target)) : other ≠ place := by
  rintro rfl
  rcases h with h | ⟨bytes, h⟩ <;> rw [ho] at h <;> cases h

theorem IsFree.ne_nil (h : d.IsFree place) : place ≠ [] := by
  have hroot : d.entry? [] = some .folder := rfl
  exact (h.ne_of_folder hroot).symm

/-- One disk is another one with a file at a place. -/
structure IsWritten (d d' : Disk) (place : Location) (bytes : Bytes) : Prop where
  free : d.IsFree place
  at_place : d'.entry? place = some (.file bytes)
  elsewhere : ∀ other, other ≠ place → d'.entry? other = d.entry? other

namespace IsWritten

theorem at_folder (h : IsWritten d d' place bytes) (ho : d.entry? other = some .folder) :
    d'.entry? other = some .folder := by
  rw [h.elsewhere other (h.free.ne_of_folder ho), ho]

theorem at_link {target : Text} (h : IsWritten d d' place bytes)
    (ho : d.entry? other = some (.link target)) : d'.entry? other = some (.link target) := by
  rw [h.elsewhere other (h.free.ne_of_link ho), ho]

/-- Where there is a folder or a file, there still is one. -/
theorem exists_entry (h : IsWritten d d' place bytes) (ho : d.entry? other = some entry)
    (hlink : ∀ target, entry ≠ .link target) :
    ∃ entry', d'.entry? other = some entry' ∧ ∀ target, entry' ≠ .link target := by
  by_cases hother : other = place
  · exact ⟨.file bytes, hother ▸ h.at_place, nofun⟩
  · exact ⟨entry, (h.elsewhere other hother).trans ho, hlink⟩

theorem arrived (h : IsWritten d d' place bytes) :
    Reaches d' .follow (place, some (.file bytes)) links place [] := .arrived (by rw [h.at_place])

/-- Names that may lead to a file to be written lead to the written file. -/
theorem reaches (hw : IsWritten d d' place bytes)
    (h : Reaches d .create (place, e) links at' names) :
    Reaches d' .follow (place, some (.file bytes)) links at' names := by
  induction h with
  | arrived hfound => cases hfound; exact hw.arrived
  | here hfolder hname _ ih => exact .here (hw.at_folder hfolder) hname ih
  | up hfolder _ ih => exact .up (hw.at_folder hfolder) ih
  | absent hlooks _ hfound =>
      cases hfound
      exact .entry (hlooks.follow (hw.at_folder hlooks.folder)) hw.at_place nofun hw.arrived
  | stay hstay => cases hstay
  | link _ hlooks hentry _ ih =>
      exact .link nofun (hlooks.follow (hw.at_folder hlooks.folder)) (hw.at_link hentry) ih
  | entry hlooks hentry hlink _ ih =>
      obtain ⟨entry', hentry', hlink'⟩ := hw.exists_entry hentry hlink
      exact .entry (hlooks.follow (hw.at_folder hlooks.folder)) hentry' hlink' ih

end IsWritten

/-- What is found is reached by the names of a path that is neither empty nor too long. -/
theorem find_eq_ok_iff {found : Location × Option Entry} :
    d.find ending folder path = .ok found ↔ ¬ path.isEmpty ∧ ¬ exceeds pathLimit path ∧
      Reaches d ending found linkLimit (startOf folder path) (namesOf path) := by
  rw [← walk_eq_ok_iff]
  unfold find
  split
  · next hempty => exact ⟨(by cases ·), fun h => absurd hempty h.1⟩
  · next hempty =>
      split
      · next hlimit => exact ⟨(by cases ·), fun h => absurd hlimit h.2.1⟩
      · next hlimit => exact ⟨fun h => ⟨hempty, hlimit, h⟩, fun h => h.2.2⟩

theorem entry?_of_find (h : d.find ending folder path = .ok (place, e)) : e = d.entry? place :=
  (find_eq_ok_iff.mp h).2.2.entry?_eq

/-- A file is written at the place that its path leads to. -/
theorem exists_written (h : d.writeFile folder path bytes = .ok d') :
    ∃ place e, d.find .create folder path = .ok (place, e) ∧ IsWritten d d' place bytes := by
  unfold writeFile at h
  cases hfind : d.find .create folder path with
  | error fault => rw [hfind] at h; cases h
  | ok found =>
      obtain ⟨place, e⟩ := found
      have he : e = d.entry? place := entry?_of_find hfind
      rw [hfind] at h
      have hset : d' = Table.set place (.file bytes) d ∧ d.IsFree place := by
        rcases e with _ | bytes | _ | _
        · exact ⟨(Except.ok.inj h).symm, Or.inl he.symm⟩
        · exact ⟨(Except.ok.inj h).symm, Or.inr ⟨_, he.symm⟩⟩
        · cases h
        · cases h
      obtain ⟨rfl, hfree⟩ := hset
      exact ⟨place, e, rfl, hfree, entry?_set_self hfree.ne_nil, fun _ => entry?_set_of_ne⟩

/-- A path that may lead to a file to be written leads to the written file. -/
theorem IsWritten.locate (hw : IsWritten d d' place bytes)
    (h : d.find .create folder path = .ok (place, e)) :
    d'.locate folder path = .ok (place, some (.file bytes)) := by
  obtain ⟨hempty, hlimit, hreaches⟩ := find_eq_ok_iff.mp h
  exact find_eq_ok_iff.mpr ⟨hempty, hlimit, hw.reaches hreaches⟩

/-- What was written is read. -/
theorem readFile_of_writeFile (h : d.writeFile folder path bytes = .ok d') :
    d'.readFile folder path = .ok bytes := by
  obtain ⟨place, e, hfind, hw⟩ := exists_written h
  unfold readFile
  rw [hw.locate hfind]
  rfl

/-- Bytes behind those of an emptied file are the bytes of the file. -/
theorem appendFile_of_createFile {emptied : Disk} (hc : d.createFile folder path = .ok emptied)
    (bytes : Bytes) :
    emptied.appendFile folder path bytes = emptied.writeFile folder path bytes := by
  unfold appendFile
  rw [readFile_of_writeFile hc]
  rfl

end SuiteAudit.Disk

namespace SuiteAudit.Machine

variable {m m' : Machine} {path : Text} {bytes : Bytes}

/-- A call that gives nothing back leaves the disk of its operation. -/
theorem of_map_eq_ok {result : Except DiskFault Disk} {disk : Disk}
    (h : result.map (((), ·) : Disk → Unit × Disk) = .ok ((), disk)) : result = .ok disk := by
  cases result with
  | error fault => cases h
  | ok d =>
      have hd := Except.ok.inj h
      exact congrArg Except.ok (congrArg Prod.snd hd)

/-- A file is written by two operations on the disk. -/
theorem exists_of_writeFile (h : (writeFile path bytes).run.run m = (.ok (), m')) :
    m'.folder = m.folder ∧ ∃ emptied, m.disk.writeFile m.folder path [] = .ok emptied ∧
      emptied.writeFile m.folder path bytes = .ok m'.disk := by
  obtain ⟨_, m₁, hc, ha⟩ := exists_of_runT_bind h
  obtain ⟨emptied, hemptied, rfl⟩ := exists_of_run_call hc
  obtain ⟨disk, hdisk, rfl⟩ := exists_of_run_call ha
  have hcreate := of_map_eq_ok hemptied
  exact ⟨rfl, emptied, hcreate, Disk.appendFile_of_createFile hcreate bytes ▸ of_map_eq_ok hdisk⟩

theorem readFile_of_writeFile (h : (writeFile path bytes).run.run m = (.ok (), m')) :
    m'.disk.readFile m'.folder path = .ok bytes := by
  obtain ⟨hfolder, emptied, -, hwrite⟩ := exists_of_writeFile h
  rw [hfolder]
  exact Disk.readFile_of_writeFile hwrite

/-- A file that was written into its folder holds what was written. -/
theorem readFile_of_writeInto (h : (writeInto path bytes).run.run m = (.ok (), m')) :
    m'.disk.readFile m'.folder path = .ok bytes := by
  obtain ⟨_, m₁, -, hw⟩ := exists_of_runT_bind h
  exact readFile_of_writeFile hw

end SuiteAudit.Machine
