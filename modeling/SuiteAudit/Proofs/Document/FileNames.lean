import SuiteAudit.Proofs.Run.Writing
import SuiteAudit.Proofs.Table
import SuiteAudit.Proofs.Text.FreshName

/-! # Names of pages

Each document has a page of its own: its name is the first free one of those that its file asks for
(`IsFirstFree`), where the names of the documents before it are taken.  So no two pages have one name,
and documents that are added behind others leave their names as they were.  The index of a report links
to the pages by the paths that they are written to, and once all are written each of them is there
(`DocumentReport.pages_apart`). -/

namespace SuiteAudit
namespace Document

variable {docs : List Document} {taken taken' paths : List Text} {path name : Text}

/-- The name that a document gets when its own is taken. -/
def numberedFile (path : Text) (n : Nat) : Text := stemOf path ++ "-" ++ Text.ofNat n ++ ending

/-- The name of a document when some are taken: its stem alone, or with the least number from two on that
makes it free. -/
structure IsFirstFree (taken : List Text) (path name : Text) : Prop where
  free : name ∉ taken
  form : name = stemOf path ++ ending ∨ stemOf path ++ ending ∈ taken ∧ ∃ n, 2 ≤ n ∧
    name = numberedFile path n ∧ ∀ i, 2 ≤ i → i < n → numberedFile path i ∈ taken

/-! ### Free names -/

theorem numberedFile_injective (path : Text) : Function.Injective (numberedFile path) := by
  intro a b h
  exact ofNat_injective (List.append_cancel_left (List.append_cancel_right h))

theorem isFirstFree_freeName (taken : List Text) (path : Text) :
    IsFirstFree taken path (freeName taken path) where
  free := freshName_not_mem (numberedFile_injective path) (fileName path)
  form := by
    obtain ⟨e, -⟩ | ⟨hbase, hnumber⟩ := freshName_cases (numberedFile path) taken (fileName path)
    · exact .inl e
    · exact .inr ⟨hbase, hnumber⟩

theorem IsFirstFree.congr (h : IsFirstFree taken path name) (hmem : ∀ t, t ∈ taken' ↔ t ∈ taken) :
    IsFirstFree taken' path name where
  free := by
    rw [hmem]
    exact h.free
  form := by
    simp only [hmem]
    exact h.form

/-! ### Many names -/

theorem namesAfter_append : ∀ (taken paths more : List Text),
    namesAfter taken (paths ++ more) =
      namesAfter taken paths ++ namesAfter ((namesAfter taken paths).reverse ++ taken) more
  | _, [], _ => rfl
  | taken, path :: paths, more => by
      simp only [List.cons_append, namesAfter, namesAfter_append, List.reverse_cons,
        List.append_assoc, List.nil_append]

theorem length_namesAfter : ∀ (taken paths : List Text),
    (namesAfter taken paths).length = paths.length
  | _, [] => rfl
  | taken, path :: paths => by
      rw [namesAfter, List.length_cons, List.length_cons, length_namesAfter]

theorem nodup_namesAfter : ∀ (taken paths : List Text),
    (namesAfter taken paths).Nodup ∧ ∀ name ∈ namesAfter taken paths, name ∉ taken
  | _, [] => ⟨.nil, fun _ h => by cases h⟩
  | taken, path :: paths => by
      obtain ⟨hnodup, hfree⟩ := nodup_namesAfter (freeName taken path :: taken) paths
      refine ⟨List.nodup_cons.mpr ⟨fun h => hfree _ h List.mem_cons_self, hnodup⟩,
        List.forall_mem_cons.mpr ⟨(isFirstFree_freeName taken path).free, fun name h hm => ?_⟩⟩
      exact hfree name h (List.mem_cons_of_mem _ hm)

/-! ### The table of names -/

/-- The paths of some documents. -/
def pathsOf (docs : List Document) : List Text := docs.map (·.filePath)

theorem nameTable_eq (h : (pathsOf docs).Nodup) :
    nameTable docs = (pathsOf docs).zip (namesAfter [] (pathsOf docs)) := by
  refine Table.ofPairs_of_nodup ?_
  rw [Table.keys, List.map_fst_zip (Nat.le_of_eq (length_namesAfter _ _).symm)]
  exact h

theorem keys_nameTable (h : (pathsOf docs).Nodup) : (nameTable docs).keys = pathsOf docs := by
  rw [nameTable_eq h, Table.keys, List.map_fst_zip (Nat.le_of_eq (length_namesAfter _ _).symm)]

theorem values_nameTable (h : (pathsOf docs).Nodup) :
    (nameTable docs).values = namesAfter [] (pathsOf docs) := by
  rw [nameTable_eq h, Table.values, List.map_snd_zip (Nat.le_of_eq (length_namesAfter _ _))]

/-- Documents that are added get names of their own and leave those of the others as they are. -/
theorem nameTable_append {more : List Document} (h : (pathsOf (docs ++ more)).Nodup) :
    nameTable (docs ++ more) = nameTable docs ++
      (pathsOf more).zip (namesAfter (nameTable docs).values.reverse (pathsOf more)) := by
  have hpaths : pathsOf (docs ++ more) = pathsOf docs ++ pathsOf more := List.map_append
  have hdocs : (pathsOf docs).Nodup := by
    rw [hpaths] at h
    exact (List.nodup_append.mp h).1
  rw [values_nameTable hdocs, nameTable_eq hdocs, nameTable_eq h, hpaths, namesAfter_append,
    List.zip_append (length_namesAfter _ _).symm, List.append_nil]

/-- A document has the first free name behind the names of those before it. -/
theorem exists_name {before after : List Document} {d : Document}
    (h : (pathsOf (before ++ d :: after)).Nodup) :
    ∃ name, (nameTable (before ++ d :: after)).get? d.filePath = some name ∧
      IsFirstFree (nameTable before).values d.filePath name := by
  refine ⟨_, Table.get?_of_mem (keys_nameTable h ▸ h) ?_,
    (isFirstFree_freeName (nameTable before).values.reverse d.filePath).congr
      fun _ => List.mem_reverse.symm⟩
  rw [nameTable_append h]
  exact List.mem_append_right _ List.mem_cons_self

/-! ### Names of files -/

/-- Nothing but characters of a text is left of it when stretches are left out. -/
theorem mem_of_mem_replaceFrom {p : Pattern} {c : Char} {skip : Nat} {b : Option Char} {o : Nat}
    {t : Text} (h : c ∈ p.replaceFrom (fun _ => []) skip b o t) : c ∈ t := by
  fun_induction Pattern.replaceFrom p (fun _ => []) skip b o t with
  | case1 => exact h
  | case2 _ _ _ _ _ ih => exact List.mem_cons_of_mem _ (ih h)
  | case3 _ _ _ _ _ ih | case4 _ _ _ _ _ _ _ ih =>
      rcases List.mem_cons.mp h with rfl | h
      · exact List.mem_cons_self
      · exact List.mem_cons_of_mem _ (ih h)
  | case5 _ _ _ _ _ _ _ ih => exact List.mem_cons_of_mem _ (ih h)

theorem slash_not_mem_stemOf (path : Text) : '/' ∉ stemOf path := by
  intro h
  have hbase : '/' ∈ baseName path := mem_of_mem_replaceFrom h
  unfold baseName at hbase
  cases hlast : (Text.splitOn '/' path).getLast? with
  | none =>
      rw [hlast] at hbase
      cases hbase
  | some piece =>
      rw [hlast] at hbase
      exact Text.not_mem_of_mem_splitOn path (List.mem_of_getLast? hlast) hbase

theorem IsFirstFree.exists_stem (h : IsFirstFree taken path name) :
    ∃ stem, name = stem ++ ending ∧ '/' ∉ stem := by
  obtain rfl | ⟨-, n, -, rfl, -⟩ := h.form
  · exact ⟨_, rfl, slash_not_mem_stemOf path⟩
  · refine ⟨_, rfl, ?_⟩
    have hnumber : '/' ∉ Text.ofNat n := fun h => by
      have := Nat.isDigit_of_mem_toDigits (by decide) (by decide) h
      cases this
    have hmark : '/' ∉ ("-" : Text) := by decide
    simp only [List.mem_append, not_or]
    exact ⟨⟨slash_not_mem_stemOf path, hmark⟩, hnumber⟩

/-- The name of a page is the name of a file in a folder. -/
theorem IsFirstFree.isPlain (h : IsFirstFree taken path name) : '/' ∉ name ∧ Disk.IsPlain name := by
  obtain ⟨stem, rfl, hstem⟩ := h.exists_stem
  have hending : '/' ∉ ending := by decide
  have hlength : 3 ≤ (stem ++ ending).length := by
    rw [List.length_append]
    exact Nat.le_add_left 3 _
  refine ⟨by simp [hstem, hending], ?_, ?_, ?_⟩ <;>
    · intro e
      rw [e] at hlength
      exact absurd hlength (by decide)

end Document

/-! ### Links and pages -/

namespace DocumentReport

open Document

variable {r : DocumentReport}

/-- The path of the page of a document below the output folder. -/
def pagePath (names : Table Text Text) (d : Document) : Text :=
  Document.folder ++ "/" ++ (names.get? d.filePath).getD []

/-- The line of the index on a document, with a link to its page. -/
def indexLine (names : Table Text Text) (d : Document) : Text :=
  Markdown.item ("[" ++ d.title ++ "](" ++ pagePath names d ++ ") (" ++ Text.ofNat d.testCount ++
    " tests) " ++ Markdown.code d.filePath)

/-- The name of the index. -/
def indexName : Text := "test-suite-index.md"

/-- What the names of its pages give a report whose documents are of different files. -/
structure KeepsPagesApart (r : DocumentReport) : Prop where
  /-- Each document has a name, and no other path has one. -/
  keys_eq : (nameTable r.documents).keys = r.documents.map (·.filePath)
  /-- It is the first free one that the document asks for. -/
  named : ∀ before d after, r.documents = before ++ d :: after →
    ∃ name, (nameTable r.documents).get? d.filePath = some name ∧
      IsFirstFree (nameTable before).values d.filePath name
  /-- No two documents have the same name. -/
  apart : (nameTable r.documents).values.Nodup
  /-- Documents that are added leave the names as they are. -/
  extended : ∀ more, ((r.documents ++ more).map (·.filePath)).Nodup →
    nameTable r.documents <+: nameTable (r.documents ++ more)
  /-- The index has a link for each document. -/
  linked : ∃ above below, r.index = Text.joinLines (above ++
    Markdown.sectionLines "## Files" (r.documents.map (indexLine (nameTable r.documents))) ++ below)
  /-- The links are where the pages are written to, before the index. -/
  written : r.artifacts.map (·.name) =
    r.documents.map (pagePath (nameTable r.documents)) ++ [indexName]
  /-- No two artifacts have the same path. -/
  paths_apart : ∀ output, (Artifact.paths output r.artifacts).Nodup
  /-- All that is written is there at the end, if no link has a name that is written to. -/
  kept : ∀ (output : Text) (m m' : Machine) (paths : List Text),
    (∀ name ∈ Document.folder :: indexName :: (nameTable r.documents).values,
      m.disk.Unlinked name) →
    (Artifact.writeAll output r.artifacts).run.run m = (.ok paths, m') →
    paths = Artifact.paths output r.artifacts ∧
      ∀ a ∈ r.artifacts, m'.Holds (a.pathIn output) (Utf8.encode a.content)

theorem exists_name_of_mem (h : (pathsOf r.documents).Nodup) {d : Document} (hd : d ∈ r.documents) :
    ∃ name taken, (nameTable r.documents).get? d.filePath = some name ∧
      IsFirstFree taken d.filePath name := by
  obtain ⟨before, after, hdocs⟩ := List.append_of_mem hd
  rw [hdocs] at h ⊢
  obtain ⟨name, hname, hfree⟩ := exists_name h
  exact ⟨name, _, hname, hfree⟩

theorem map_pagePath (h : (pathsOf r.documents).Nodup) :
    r.documents.map (pagePath (nameTable r.documents)) =
      (nameTable r.documents).values.map (Document.folder ++ "/" ++ ·) := by
  have hget := Table.map_get?_keys (keys_nameTable h ▸ h)
  rw [keys_nameTable h] at hget
  have hpaths := congrArg (List.map fun name? => Document.folder ++ "/" ++ name?.getD []) hget
  rw [pathsOf, List.map_map, List.map_map, List.map_map] at hpaths
  exact hpaths

theorem artifacts_names (h : (pathsOf r.documents).Nodup) : r.artifacts.map (·.name) =
    r.documents.map (pagePath (nameTable r.documents)) ++ [indexName] := by
  have hpage : ∀ d ∈ r.documents, (pageArtifact (nameTable r.documents) d).name =
      pagePath (nameTable r.documents) d := by
    intro d hd
    obtain ⟨name, taken, hname, hfree⟩ := exists_name_of_mem h hd
    have hhead : name.head? ≠ some '/' := fun hhead => hfree.isPlain.1 (List.mem_of_head? hhead)
    rw [pagePath, pageArtifact, hname]
    exact if_neg hhead
  rw [artifacts, List.map_append, List.map_map]
  exact congrArg (· ++ [indexName]) (List.map_congr_left hpage)

theorem nodup_artifacts_names (h : (pathsOf r.documents).Nodup) :
    (r.artifacts.map (·.name)).Nodup := by
  have hapart : (nameTable r.documents).values.Nodup :=
    values_nameTable h ▸ (nodup_namesAfter [] _).1
  have hindex : '/' ∉ indexName := by decide
  rw [artifacts_names h, map_pagePath h]
  refine List.nodup_append.mpr ⟨hapart.map fun a b hab => List.append_cancel_left hab,
    List.nodup_singleton indexName, fun path hpath index hm => ?_⟩
  obtain ⟨name, -, rfl⟩ := List.mem_map.mp hpath
  rw [List.mem_singleton.mp hm]
  intro e
  exact hindex (e ▸ by simp)

/-- The names on the way to an artifact are those of the folder of the pages, the index and the pages. -/
theorem isPlain_of_mem_namesOf (h : (pathsOf r.documents).Nodup) {a : Artifact}
    (ha : a ∈ r.artifacts) : ∀ name ∈ Disk.namesOf a.name, Disk.IsPlain name ∧
      name ∈ Document.folder :: indexName :: (nameTable r.documents).values := by
  have hname : a.name ∈ r.artifacts.map (·.name) := List.mem_map_of_mem ha
  rw [artifacts_names h] at hname
  rcases List.mem_append.mp hname with hpage | hindex
  · obtain ⟨d, hd, e⟩ := List.mem_map.mp hpage
    obtain ⟨name, taken, hget, hfree⟩ := exists_name_of_mem h hd
    have hnames : Disk.namesOf a.name = [Document.folder, name] := by
      have hfolder : Text.splitOn '/' Document.folder = [Document.folder] := by decide
      have hpath : a.name = Document.folder ++ '/' :: name := by
        rw [← e, pagePath, hget, List.append_assoc]
        rfl
      rw [hpath, Disk.namesOf, Text.splitOn_append, hfolder,
        Text.splitOn_of_not_mem hfree.isPlain.1]
      rfl
    have hmem : name ∈ (nameTable r.documents).values := Table.mem_values_of_get? hget
    have hfolder : Disk.IsPlain Document.folder := by
      unfold Disk.IsPlain
      decide
    rw [hnames]
    simp [hfolder, hfree.isPlain.2, hmem]
  · have hplain : Disk.IsPlain indexName := by
      unfold Disk.IsPlain
      decide
    have hnames : Disk.namesOf indexName = [indexName] := by decide
    rw [List.mem_singleton.mp hindex, hnames]
    simp [hplain]

/-- The lines of the index have the links of the documents among them. -/
theorem exists_index_lines (r : DocumentReport) : ∃ above below, r.index = Text.joinLines (above ++
    Markdown.sectionLines "## Files" (r.documents.map (indexLine (nameTable r.documents))) ++
      below) := by
  have hlines : r.documents.map (linkLine (nameTable r.documents)) =
      r.documents.map (indexLine (nameTable r.documents)) := by
    refine List.map_congr_left fun d _ => ?_
    simp only [linkLine, indexLine, pagePath, List.append_assoc]
  unfold index
  rw [hlines]
  exact ⟨_, _, rfl⟩

/-- The documents of different files have pages of their own, and the index has a link to each. -/
theorem pages_apart (h : (r.documents.map (·.filePath)).Nodup) : r.KeepsPagesApart where
  keys_eq := keys_nameTable h
  named before d after hdocs := by
    rw [hdocs] at h ⊢
    exact exists_name h
  apart := values_nameTable h ▸ (nodup_namesAfter [] _).1
  extended more hmore := nameTable_append hmore ▸ List.prefix_append _ _
  linked := exists_index_lines r
  written := artifacts_names h
  paths_apart output := by
    have hpaths : Artifact.paths output r.artifacts =
        (r.artifacts.map (·.name)).map (Path.join output) := by
      rw [List.map_map]
      rfl
    rw [hpaths]
    refine (nodup_artifacts_names h).map_on fun x hx y hy e => ?_
    obtain ⟨a, ha, rfl⟩ := List.mem_map.mp hx
    obtain ⟨b, hb, rfl⟩ := List.mem_map.mp hy
    exact Artifact.join_inj (fun n hn => (isPlain_of_mem_namesOf h ha n hn).1)
      (fun n hn => (isPlain_of_mem_namesOf h hb n hn).1) e
  kept output m m' paths hlinks hrun := by
    have hpaths : paths = Artifact.paths output r.artifacts := by
      obtain ⟨_, hok, -⟩ | ⟨_, _, herror, -⟩ := Artifact.writeAll_cases output r.artifacts m
      · rw [hrun] at hok
        exact Except.ok.inj (congrArg Prod.fst hok)
      · rw [hrun] at herror
        cases herror
    have hbelow : ∀ a ∈ r.artifacts, a.IsBelow m.disk := fun a ha name hname => by
      obtain ⟨hplain, hmem⟩ := isPlain_of_mem_namesOf h ha name hname
      exact ⟨hplain, hlinks name hmem⟩
    exact ⟨hpaths, (Artifact.holds_of_writeAll hbelow (nodup_artifacts_names h) hrun).1⟩

end DocumentReport

/-- A document of a file, without suites. -/
def emptyDocument (path : Text) : Document where
  filePath := path
  title := "Login"
  description := []
  lastUpdated := { year := 2024, month := 5, day := 1 }

/-- Two files of one name, and between them one that is named as the second would be. -/
def threeLogins : DocumentReport := .ofDocuments
  (["auth/login.spec.ts", "login-2.spec.ts", "admin/login.test.js"].map emptyDocument) []

theorem threeLogins_apart : (threeLogins.documents.map (·.filePath)).Nodup ∧
    (Document.nameTable threeLogins.documents).values =
      (["login.md", "login-2.md", "login-3.md"] : List Text) ∧
    (Document.nameTable threeLogins.documents).values.Nodup := by
  have h : (threeLogins.documents.map (·.filePath)).Nodup := by decide
  exact ⟨h, by decide +kernel, (DocumentReport.pages_apart h).apart⟩

end SuiteAudit
