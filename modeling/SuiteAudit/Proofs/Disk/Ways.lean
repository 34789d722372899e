import SuiteAudit.Disk.SourceFile

/-! # Ways

A walk that comes to an end goes a way: one step for each name, which stays in a folder, goes to the
one above it or to an entry of it, or goes to where a link points (`Reaches`).  What holds of walks
is shown step by step (`walk_eq_ok_iff`).

A way along some names and others behind them comes by the folder that the first ones lead to
(`Reaches.exists_above`), so slashes at the end lead to a folder (`Reaches.isFolder`). -/

namespace SuiteAudit.Disk

/-- A name of something in a folder. -/
def IsPlain (name : Text) : Prop := name ≠ [] ∧ name ≠ ['.'] ∧ name ≠ ['.', '.']

/-- A name is looked up in a folder, with other names behind it. -/
structure LooksUp (d : Disk) (ending : Ending) (at' : Location) (name : Text)
    (rest : List Text) : Prop where
  folder : d.entry? at' = some .folder
  plain : IsPlain name
  /-- No mere slashes stand behind a file that may be made. -/
  noSlash : ending = .create → rest ≠ [] → ¬ ∀ slash ∈ rest, slash = []
  fits : ¬ exceeds nameLimit name

/-- Names lead from a place to another one with its entry, over so many links at most. -/
inductive Reaches (d : Disk) (ending : Ending) (found : Location × Option Entry) :
    Nat → Location → List Text → Prop
  | arrived {links at'} (hfound : found = (at', d.entry? at')) : Reaches d ending found links at' []
  /-- The folder itself. -/
  | here {links at' name rest} (hfolder : d.entry? at' = some .folder)
      (hname : name = [] ∨ name = ['.']) (h : Reaches d ending found links at' rest) :
      Reaches d ending found links at' (name :: rest)
  /-- The folder above. -/
  | up {links at' rest} (hfolder : d.entry? at' = some .folder)
      (h : Reaches d ending found links at'.dropLast rest) :
      Reaches d ending found links at' (['.', '.'] :: rest)
  /-- Nothing has the last name. -/
  | absent {links at' name} (hlooks : LooksUp d ending at' name [])
      (hentry : d.entry? (at' ++ [name]) = none) (hfound : found = (at' ++ [name], none)) :
      Reaches d ending found links at' [name]
  /-- A link has the last name and stands for itself. -/
  | stay {links at' name target} (hstay : ending = .stay) (hlooks : LooksUp d ending at' name [])
      (hentry : d.entry? (at' ++ [name]) = some (.link target))
      (hfound : found = (at' ++ [name], some (.link target))) :
      Reaches d ending found links at' [name]
  | link {links at' name target rest} (hstay : rest = [] → ending ≠ .stay)
      (hlooks : LooksUp d ending at' name rest)
      (hentry : d.entry? (at' ++ [name]) = some (.link target))
      (h : Reaches d ending found links (startOf at' target) (namesOf target ++ rest)) :
      Reaches d ending found (links + 1) at' (name :: rest)
  | entry {links at' name entry rest} (hlooks : LooksUp d ending at' name rest)
      (hentry : d.entry? (at' ++ [name]) = some entry) (hlink : ∀ target, entry ≠ .link target)
      (h : Reaches d ending found links (at' ++ [name]) rest) :
      Reaches d ending found links at' (name :: rest)

variable {d d' : Disk} {ending : Ending} {links : Nat} {at' place : Location} {name : Text}
  {names rest : List Text} {e : Option Entry} {found : Location × Option Entry}

/-! ### Walks are ways -/

/-- What a walk has asked before it looks up a name. -/
theorem looksUp_iff : LooksUp d ending at' name rest ↔ ¬ d.entry? at' ≠ some .folder ∧
    ¬ (name.isEmpty || name == ['.']) ∧ ¬ name == ['.', '.'] ∧
    ¬ (ending = .create && !rest.isEmpty && rest.all (·.isEmpty)) ∧ ¬ exceeds nameLimit name := by
  constructor
  · rintro ⟨hfolder, ⟨hempty, hdot, hup⟩, hslash, hfits⟩
    refine ⟨not_not_intro hfolder, by simp [hempty, hdot], by simpa using hup, ?_, hfits⟩
    simpa using hslash
  · rintro ⟨hfolder, hname, hup, hslash, hfits⟩
    have hplain : IsPlain name := by
      refine ⟨?_, ?_, by simpa using hup⟩
      · rintro rfl
        simp at hname
      · rintro rfl
        simp at hname
    exact ⟨Classical.not_not.mp hfolder, hplain, by simpa using hslash, hfits⟩

theorem reaches_of_walk (h : d.walk ending links at' names = .ok found) :
    Reaches d ending found links at' names := by
  fun_induction walk d ending links at' names with
  | case1 => exact .arrived (Except.ok.inj h).symm
  | case2 | case5 | case6 | case8 | case10 => cases h
  | case3 links at' name rest hfolder hname ih =>
      exact .here (Classical.not_not.mp hfolder) (by simpa using hname) (ih h)
  | case4 links at' name rest hfolder hname hup ih =>
      obtain rfl : name = ['.', '.'] := by simpa using hup
      exact .up (Classical.not_not.mp hfolder) (ih h)
  | case7 links at' name rest hfolder hname hup hslash hfits hentry hrest =>
      obtain rfl : rest = [] := by simpa using hrest
      exact .absent (looksUp_iff.mpr ⟨hfolder, hname, hup, hslash, hfits⟩) hentry
        (Except.ok.inj h).symm
  | case9 links at' name rest hfolder hname hup hslash hfits target hentry hstay =>
      obtain ⟨rfl, rfl⟩ : rest = [] ∧ ending = .stay := by simpa using hstay
      exact .stay rfl (looksUp_iff.mpr ⟨hfolder, hname, hup, hslash, hfits⟩) hentry
        (Except.ok.inj h).symm
  | case11 at' name rest hfolder hname hup hslash hfits target hentry hstay links ih =>
      exact .link (by simpa using hstay) (looksUp_iff.mpr ⟨hfolder, hname, hup, hslash, hfits⟩)
        hentry (ih h)
  | case12 links at' name rest hfolder hname hup hslash hfits entry hlink hentry ih =>
      exact .entry (looksUp_iff.mpr ⟨hfolder, hname, hup, hslash, hfits⟩) hentry hlink (ih h)

/-- A name that is looked up may be looked up to be followed where there still is the folder. -/
theorem LooksUp.follow {behind : List Text} (h : LooksUp d ending at' name rest)
    (hfolder : d'.entry? at' = some .folder) : LooksUp d' .follow at' name behind :=
  ⟨hfolder, h.plain, nofun, h.fits⟩

/-- A name that may be looked up is. -/
theorem LooksUp.walk (h : LooksUp d ending at' name rest) :
    d.walk ending links at' (name :: rest) = match d.entry? (at' ++ [name]) with
      | none => if rest.isEmpty then .ok (at' ++ [name], none) else .error .absent
      | some (.link target) =>
        if rest.isEmpty && ending = .stay then .ok (at' ++ [name], some (.link target))
        else
          match links with
          | 0 => .error .linkLoop
          | links + 1 => d.walk ending links (startOf at' target) (namesOf target ++ rest)
      | some _ => d.walk ending links (at' ++ [name]) rest := by
  obtain ⟨hfolder, hname, hup, hslash, hfits⟩ := looksUp_iff.mp h
  rw [Disk.walk, if_neg hfolder, if_neg hname, if_neg hup, if_neg hslash]
  exact if_neg hfits

theorem Reaches.walk (h : Reaches d ending found links at' names) :
    d.walk ending links at' names = .ok found := by
  induction h with
  | arrived hfound => rw [Disk.walk, hfound]
  | here hfolder hname _ ih => rw [Disk.walk, if_neg (not_not_intro hfolder), if_pos (by simpa), ih]
  | up hfolder _ ih =>
      rw [Disk.walk, if_neg (not_not_intro hfolder), if_neg (by decide), if_pos (by decide), ih]
  | absent hlooks hentry hfound => rw [hlooks.walk, hentry, hfound]; rfl
  | stay hstay hlooks hentry hfound => rw [hlooks.walk, hentry, hfound, hstay]; rfl
  | link hstay hlooks hentry _ ih =>
      rw [hlooks.walk, hentry]
      simp only
      rw [if_neg (by simpa using hstay), ih]
  | @entry _ _ _ entry _ hlooks hentry hlink _ ih =>
      rw [hlooks.walk, hentry]
      cases entry with
      | link target => exact absurd rfl (hlink target)
      | file | folder => exact ih

/-- A walk comes to an end exactly by a way. -/
theorem walk_eq_ok_iff :
    d.walk ending links at' names = .ok found ↔ Reaches d ending found links at' names :=
  ⟨reaches_of_walk, Reaches.walk⟩

namespace Reaches

/-- The same names lead to one place. -/
theorem unique {found' : Location × Option Entry} (h : Reaches d ending found links at' names)
    (h' : Reaches d ending found' links at' names) : found = found' :=
  Except.ok.inj (h.walk.symm.trans h'.walk)

/-! ### What a way comes by -/

/-- A way ends with the entry of its place. -/
theorem entry?_eq (h : Reaches d ending (place, e) links at' names) : e = d.entry? place := by
  induction h with
  | arrived hfound => cases hfound; rfl
  | here _ _ _ ih | up _ _ ih | link _ _ _ _ ih | entry _ _ _ _ ih => exact ih
  | absent _ hentry hfound => cases hfound; exact hentry.symm
  | stay _ _ hentry hfound => cases hfound; exact hentry.symm

/-- A way on leaves a folder. -/
theorem folder (h : Reaches d ending found links at' names) (hnames : names ≠ []) :
    d.entry? at' = some .folder := by
  cases h with
  | arrived => exact absurd rfl hnames
  | here hfolder | up hfolder => exact hfolder
  | absent hlooks | stay _ hlooks | link _ hlooks | entry hlooks => exact hlooks.folder

/-- A way along some names and others behind them comes by the folder that the first ones lead
to. -/
theorem exists_above {names : List Text} {links : Nat} {at' : Location} (hrest : rest ≠ [])
    (h : Reaches d ending found links at' (names ++ rest)) :
    ∃ above links', Reaches d .follow (above, some .folder) links at' names ∧
      Reaches d ending found links' above rest := by
  cases names with
  | nil => exact ⟨at', links, .arrived (by rw [h.folder hrest]), h⟩
  | cons name names =>
      rw [List.cons_append] at h
      generalize hbehind : names ++ rest = behind at h
      cases h with
      | here hfolder hname h =>
          obtain ⟨above, links', habove, h'⟩ := exists_above hrest (hbehind ▸ h)
          exact ⟨above, links', .here hfolder hname habove, h'⟩
      | up hfolder h =>
          obtain ⟨above, links', habove, h'⟩ := exists_above hrest (hbehind ▸ h)
          exact ⟨above, links', .up hfolder habove, h'⟩
      | absent | stay => exact absurd (List.append_eq_nil_iff.mp hbehind).2 hrest
      | link hstay hlooks hentry h =>
          rw [← hbehind, ← List.append_assoc] at h
          obtain ⟨above, links', habove, h'⟩ := exists_above hrest h
          exact ⟨above, links', .link (by simp) (hlooks.follow hlooks.folder) hentry habove, h'⟩
      | entry hlooks hentry hlink h =>
          obtain ⟨above, links', habove, h'⟩ := exists_above hrest (hbehind ▸ h)
          exact ⟨above, links', .entry (hlooks.follow hlooks.folder) hentry hlink habove, h'⟩
  termination_by (links, names.length)

/-- A way with a slash at its end leads to a folder. -/
theorem isFolder (h : Reaches d ending (place, e) links at' names)
    (hlast : names.getLast? = some []) : e = some .folder := by
  obtain ⟨front, rfl⟩ := List.getLast?_eq_some_iff.mp hlast
  obtain ⟨above, links', -, h'⟩ := exists_above (by simp) h
  cases h' with
  | here hfolder hname h =>
      cases h with
      | arrived hfound => cases hfound; exact hfolder
  | absent hlooks | stay _ hlooks | link _ hlooks | entry hlooks => exact absurd rfl hlooks.plain.1

end Reaches

end SuiteAudit.Disk
