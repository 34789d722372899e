import Mathlib.Data.List.Induction
import SuiteAudit.Proofs.Disk.Written

/-! # Files beside a written file

A write changes one file.  A path that leads to a file leads there too when the file is to be written
(`Reaches.create`), so what can be read can be written and be written behind.  A file at another place is
read as before (`readFile_of_writeFile_beside`): no folder and no link on the way to it was touched.
Nor does a new folder stand in the way of a file (`GainsFolders.readFile`).

Paths that differ only in names below a folder lead to different places, if no link has one of these
names (`sameEntry_eq_false_of_below`). -/

namespace SuiteAudit.Disk

variable {d d' d'' : Disk} {ending : Ending} {links : Nat} {folder at' place other : Location}
  {name : Text} {names below below' : List Text} {path path' : Text} {entry : Entry}
  {e : Option Entry} {bytes content : Bytes}

/-! ### From reading to writing -/

/-- Names that lead to a file have no mere slashes at their end. -/
theorem Reaches.not_slashes (h : Reaches d ending (place, some (.file bytes)) links at' names)
    (hends : below <:+ names) (hbelow : below ≠ []) : ¬ ∀ slash ∈ below, slash = [] := by
  intro hall
  obtain ⟨front, rfl⟩ := hends
  have hlast : below.getLast? = some [] := by
    rw [List.getLast?_eq_some_getLast hbelow, hall _ (List.getLast_mem hbelow)]
  cases h.isFolder (by rw [List.getLast?_append, hlast]; rfl)

/-- Names that lead to a file lead to it when it is to be written. -/
theorem Reaches.create (h : Reaches d .follow (place, some (.file bytes)) links at' names) :
    Reaches d .create (place, some (.file bytes)) links at' names := by
  induction h with
  | arrived hfound => exact .arrived hfound
  | here hfolder hname _ ih => exact .here hfolder hname ih
  | up hfolder _ ih => exact .up hfolder ih
  | absent _ _ hfound => cases hfound
  | stay hstay => cases hstay
  | link _ hlooks hentry h ih =>
      have hslash := h.not_slashes (List.suffix_append _ _)
      exact .link nofun ⟨hlooks.folder, hlooks.plain, fun _ => hslash, hlooks.fits⟩ hentry ih
  | entry hlooks hentry hlink h ih =>
      have hslash := h.not_slashes List.suffix_rfl
      exact .entry ⟨hlooks.folder, hlooks.plain, fun _ => hslash, hlooks.fits⟩ hentry hlink ih

/-- A path that leads to a file leads to it when it is to be written. -/
theorem find_create (h : d.locate folder path = .ok (place, some (.file bytes))) :
    d.find .create folder path = .ok (place, some (.file bytes)) := by
  obtain ⟨hempty, hlimit, hreaches⟩ := find_eq_ok_iff.mp h
  exact find_eq_ok_iff.mpr ⟨hempty, hlimit, hreaches.create⟩

theorem readFile_eq_ok_iff : d.readFile folder path = .ok bytes ↔
    ∃ place, d.locate folder path = .ok (place, some (.file bytes)) := by
  unfold readFile
  constructor
  · intro h
    cases hlocate : d.locate folder path with
    | error fault => rw [hlocate] at h; cases h
    | ok found =>
        rw [hlocate] at h
        rcases found with ⟨place, _ | bytes | _ | _⟩ <;> cases h
        exact ⟨place, rfl⟩
  · rintro ⟨place, hlocate⟩
    rw [hlocate]
    rfl

/-- A file that can be read can be written. -/
theorem exists_writeFile (h : d.readFile folder path = .ok bytes) (content : Bytes) :
    ∃ d', d.writeFile folder path content = .ok d' := by
  obtain ⟨place, hlocate⟩ := readFile_eq_ok_iff.mp h
  refine ⟨Table.set place (.file content) d, ?_⟩
  unfold writeFile
  rw [find_create hlocate]
  rfl

/-- A file that can be read can be written behind. -/
theorem exists_appendFile (h : d.readFile folder path = .ok bytes) (content : Bytes) :
    ∃ d', d.appendFile folder path content = .ok d' ∧
      d.writeFile folder path (bytes ++ content) = .ok d' := by
  obtain ⟨d', hd'⟩ := exists_writeFile h (bytes ++ content)
  refine ⟨d', ?_, hd'⟩
  unfold appendFile
  rw [h]
  exact hd'

/-! ### Ways -/

/-- Where one disk has something, another one has something of the same kind. -/
structure KeepsWays (d d' : Disk) : Prop where
  folder : ∀ place, d.entry? place = some .folder → d'.entry? place = some .folder
  link : ∀ place target, d.entry? place = some (.link target) →
    d'.entry? place = some (.link target)
  file : ∀ place bytes, d.entry? place = some (.file bytes) →
    ∃ bytes', d'.entry? place = some (.file bytes')

/-- Names that lead to something lead there as before. -/
theorem KeepsWays.reaches (hk : KeepsWays d d')
    (h : Reaches d .follow (place, some entry) links at' names) :
    Reaches d' .follow (place, d'.entry? place) links at' names := by
  induction h with
  | arrived hfound => obtain ⟨rfl, -⟩ := Prod.mk.inj hfound; exact .arrived rfl
  | here hfolder hname _ ih => exact .here (hk.folder _ hfolder) hname ih
  | up hfolder _ ih => exact .up (hk.folder _ hfolder) ih
  | absent _ _ hfound => cases hfound
  | stay hstay => cases hstay
  | link _ hlooks hentry _ ih =>
      exact .link nofun (hlooks.follow (hk.folder _ hlooks.folder)) (hk.link _ _ hentry) ih
  | @entry _ _ _ entry _ hlooks hentry hlink _ ih =>
      have hfolder' := hk.folder _ hlooks.folder
      cases entry with
      | link target => exact absurd rfl (hlink target)
      | folder => exact .entry (hlooks.follow hfolder') (hk.folder _ hentry) nofun ih
      | file bytes =>
          obtain ⟨bytes', hentry'⟩ := hk.file _ _ hentry
          exact .entry (hlooks.follow hfolder') hentry' nofun ih

theorem KeepsWays.locate (hk : KeepsWays d d')
    (h : d.locate folder path = .ok (place, some entry)) :
    d'.locate folder path = .ok (place, d'.entry? place) := by
  obtain ⟨hempty, hlimit, hreaches⟩ := find_eq_ok_iff.mp h
  exact find_eq_ok_iff.mpr ⟨hempty, hlimit, hk.reaches hreaches⟩

theorem IsWritten.keepsWays (hw : IsWritten d d' place content) : KeepsWays d d' where
  folder other h := (hw.elsewhere other (hw.free.ne_of_folder h)).trans h
  link other target h := hw.at_link h
  file other bytes h := by
    by_cases hother : other = place
    · exact ⟨content, hother ▸ hw.at_place⟩
    · exact ⟨bytes, (hw.elsewhere other hother).trans h⟩

/-! ### Other files -/

theorem sameEntry_comm : d.sameEntry folder path path' = d.sameEntry folder path' path := by
  unfold sameEntry
  rcases d.locate folder path with _ | ⟨place, _ | entry⟩ <;>
    rcases d.locate folder path' with _ | ⟨place', _ | entry'⟩ <;> try rfl
  exact decide_eq_decide.mpr eq_comm

/-- A path to another entry than a file does not lead to the file when it is to be written. -/
theorem ne_of_sameEntry (h : d.locate folder path = .ok (other, some (.file bytes)))
    (hs : d.sameEntry folder path path' = false)
    (hfind : d.find .create folder path' = .ok (place, e)) : other ≠ place := by
  rintro rfl
  have hentry : d.entry? other = some (.file bytes) := (entry?_of_find h).symm
  have hself : IsWritten d d other bytes := ⟨.inr ⟨bytes, hentry⟩, hentry, fun _ _ => rfl⟩
  unfold sameEntry at hs
  rw [h, hself.locate hfind] at hs
  simp at hs

/-- A write leaves the files at other places as they were. -/
theorem readFile_of_writeFile_beside (hr : d.readFile folder path = .ok bytes)
    (hs : d.sameEntry folder path path' = false) (hw : d.writeFile folder path' content = .ok d') :
    d'.readFile folder path = .ok bytes ∧ d'.sameEntry folder path path' = false := by
  obtain ⟨other, hlocate⟩ := readFile_eq_ok_iff.mp hr
  obtain ⟨place, e, hfind, hw⟩ := exists_written hw
  have hne : other ≠ place := ne_of_sameEntry hlocate hs hfind
  have hlocate' : d'.locate folder path = .ok (other, some (.file bytes)) := by
    rw [hw.keepsWays.locate hlocate, hw.elsewhere other hne, ← entry?_of_find hlocate]
  refine ⟨readFile_eq_ok_iff.mpr ⟨other, hlocate'⟩, ?_⟩
  unfold sameEntry
  rw [hlocate', hw.locate hfind]
  simpa using hne

/-- So do two writes in a row, as when a file is emptied first. -/
theorem readFile_of_writeFile_twice {first : Disk} {before : Bytes}
    (hr : d.readFile folder path = .ok bytes) (hs : d.sameEntry folder path path' = false)
    (hfirst : d.writeFile folder path' before = .ok first)
    (hw : first.writeFile folder path' content = .ok d') :
    d'.readFile folder path = .ok bytes ∧ d'.sameEntry folder path path' = false := by
  obtain ⟨hr', hs'⟩ := readFile_of_writeFile_beside hr hs hfirst
  exact readFile_of_writeFile_beside hr' hs' hw

/-! ### Places below one folder -/

/-- No link has a name. -/
def Unlinked (d : Disk) (name : Text) : Prop :=
  ∀ place target, d.entry? (place ++ [name]) ≠ some (.link target)

/-- Names with a plain one behind them, which no link has, lead into the folder that they lead to
alone. -/
theorem Reaches.exists_concat (hplain : IsPlain name) (hname : d.Unlinked name)
    (h : Reaches d ending (place, e) links at' (names ++ [name])) :
    ∃ above, Reaches d .follow (above, some .folder) links at' names ∧ place = above ++ [name] := by
  obtain ⟨above, links', habove, h'⟩ := h.exists_above (List.cons_ne_nil name [])
  refine ⟨above, habove, ?_⟩
  cases h' with
  | here _ hdot => exact absurd hdot (not_or_intro hplain.1 hplain.2.1)
  | up => exact absurd rfl hplain.2.2
  | absent _ _ hfound => exact (Prod.mk.inj hfound).1
  | stay _ _ hentry | link _ _ hentry => exact absurd hentry (hname above _)
  | entry _ _ _ h => cases h with | arrived hfound => exact (Prod.mk.inj hfound).1

/-- The same of some plain names behind others. -/
theorem Reaches.exists_append (hbelow : below ≠ [])
    (hplain : ∀ name ∈ below, IsPlain name ∧ d.Unlinked name)
    (h : Reaches d ending (place, e) links at' (names ++ below)) :
    ∃ above, Reaches d .follow (above, some .folder) links at' names ∧ place = above ++ below := by
  induction below using List.reverseRecOn generalizing ending place e with
  | nil => exact absurd rfl hbelow
  | append_singleton front name ih =>
      have hname : IsPlain name ∧ d.Unlinked name := hplain name (by simp)
      have hfront : ∀ name ∈ front, IsPlain name ∧ d.Unlinked name := fun name hm =>
        hplain name (List.mem_append_left _ hm)
      rw [← List.append_assoc] at h
      obtain ⟨above, habove, rfl⟩ := h.exists_concat hname.1 hname.2
      cases front with
      | nil => exact ⟨above, by rwa [List.append_nil] at habove, rfl⟩
      | cons n front =>
          obtain ⟨top, htop, rfl⟩ := ih (List.cons_ne_nil n front) hfront habove
          exact ⟨top, htop, List.append_assoc _ _ _⟩

/-- Paths that lead to a folder by the same names, and on by different plain ones, do not lead to the
same entry. -/
theorem sameEntry_eq_false_of_below (hstart : startOf folder path = startOf folder path')
    (hpath : namesOf path = names ++ below) (hpath' : namesOf path' = names ++ below')
    (hbelow : below ≠ []) (hbelow' : below' ≠ []) (hne : below ≠ below')
    (hplain : ∀ name ∈ below ++ below', IsPlain name ∧ d.Unlinked name) :
    d.sameEntry folder path path' = false := by
  unfold sameEntry
  split
  · next place e place' e' hfind hfind' =>
      obtain ⟨-, -, hreaches⟩ := find_eq_ok_iff.mp hfind
      obtain ⟨-, -, hreaches'⟩ := find_eq_ok_iff.mp hfind'
      rw [hpath] at hreaches
      rw [hpath', ← hstart] at hreaches'
      obtain ⟨above, habove, rfl⟩ := hreaches.exists_append hbelow
        (fun name hm => hplain name (List.mem_append_left _ hm))
      obtain ⟨above', habove', rfl⟩ := hreaches'.exists_append hbelow'
        (fun name hm => hplain name (List.mem_append_right _ hm))
      obtain ⟨rfl, -⟩ := Prod.mk.inj (habove.unique habove')
      simpa using hne
  · rfl

/-! ### More folders -/

theorem IsWritten.unlinked (hw : IsWritten d d' place content) (h : d.Unlinked name) :
    d'.Unlinked name := by
  intro other target hlink
  by_cases hother : other ++ [name] = place
  · rw [hother, hw.at_place] at hlink
    cases hlink
  · exact h other target ((hw.elsewhere _ hother).symm.trans hlink)

/-- One disk has folders where another one has nothing, and else the same entries. -/
def GainsFolders (d d' : Disk) : Prop := ∀ place, d'.entry? place = d.entry? place ∨
  d.entry? place = none ∧ d'.entry? place = some .folder

namespace GainsFolders

theorem refl (d : Disk) : GainsFolders d d := fun _ => .inl rfl

theorem entry? (hg : GainsFolders d d') (h : d.entry? place = some entry) :
    d'.entry? place = some entry := by
  obtain heq | ⟨hnone, -⟩ := hg place
  · exact heq.trans h
  · rw [h] at hnone
    cases hnone

theorem trans (hg : GainsFolders d d') (hg' : GainsFolders d' d'') : GainsFolders d d'' := by
  intro place
  obtain heq | ⟨hnone, hfolder⟩ := hg place
  · rw [← heq]
    exact hg' place
  · exact .inr ⟨hnone, hg'.entry? hfolder⟩

theorem unlinked (hg : GainsFolders d d') (h : d.Unlinked name) : d'.Unlinked name := by
  intro place target hlink
  obtain heq | ⟨-, hfolder⟩ := hg (place ++ [name])
  · exact h place target (heq.symm.trans hlink)
  · rw [hlink] at hfolder
    cases hfolder

theorem readFile (hg : GainsFolders d d') (h : d.readFile folder path = .ok bytes) :
    d'.readFile folder path = .ok bytes := by
  have hways : KeepsWays d d' :=
    ⟨fun _ h => hg.entry? h, fun _ _ h => hg.entry? h, fun _ bytes h => ⟨bytes, hg.entry? h⟩⟩
  obtain ⟨place, hlocate⟩ := readFile_eq_ok_iff.mp h
  refine readFile_eq_ok_iff.mpr ⟨place, ?_⟩
  rw [hways.locate hlocate, hg.entry? (entry?_of_find hlocate).symm]

end GainsFolders

theorem gainsFolders_of_makeFolder (h : d.makeFolder folder path = .ok d') : GainsFolders d d' := by
  unfold makeFolder at h
  cases hfind : d.locateLink folder path with
  | error fault => rw [hfind] at h; cases h
  | ok found =>
      rw [hfind] at h
      rcases found with ⟨place, _ | entry⟩
      · have hnone : d.entry? place = none := (entry?_of_find hfind).symm
        have hplace : place ≠ [] := by
          rintro rfl
          cases hnone
        obtain rfl : Table.set place .folder d = d' := Except.ok.inj h
        intro other
        by_cases hother : other = place
        · subst hother
          exact .inr ⟨hnone, entry?_set_self hplace⟩
        · exact .inl (entry?_set_of_ne hother)
      · cases h

end SuiteAudit.Disk
