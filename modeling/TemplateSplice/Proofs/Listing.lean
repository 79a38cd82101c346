import TemplateSplice.Extension
import TemplateSplice.Proofs.Locate
import TemplateSplice.Proofs.Run
import TemplateSplice.Proofs.Utf8

/-! What is gathered from a directory. The listing is all of its extension files in strictly increasing
order of their names: two files of a directory have different names, and a name that is valid UTF-8 is
the encoding of its text, so no two of them share a text. What is processed is that list turned round,
without its last, and a scan reads each of these files once. -/

namespace TemplateSplice

theorem bind_eq_ok {ε α β : Type} {x : Except ε α} {f : α → Except ε β} {b : β} :
    (x >>= f) = .ok b ↔ ∃ a, x = .ok a ∧ f a = .ok b := by
  cases x with
  | error fault => simp [bind, Except.bind]
  | ok a => simp [bind, Except.bind]

theorem mapM_congr {ε α β : Type} {f f' : α → Except ε β} {l : List α} (h : ∀ a ∈ l, f a = f' a) :
    l.mapM f = l.mapM f' := by
  induction l with
  | nil => rfl
  | cons a rest ih =>
    obtain ⟨ha, hrest⟩ := List.forall_mem_cons.mp h
    rw [List.mapM_cons, List.mapM_cons, ha, ih hrest]

theorem Text.utf8_injective {s t : Text} (h : s.utf8 = t.utf8) : s = t := by
  have hs : Utf8.decode? s.utf8 = some s := Utf8.decode?_eq_some_iff.mpr rfl
  rw [h, Utf8.decode?_eq_some_iff.mpr rfl] at hs
  exact (Option.some.inj hs).symm

namespace FileTree

/-- What a directory has by a name is a file if it is found to be one, perhaps behind a link. -/
theorem file_mem_children {t : FileTree} {l : Location} {name content : Bytes} :
    (name, .file content) ∈ t.children l ↔ t.entry? (t.follow (name :: l)) = some (.file content) := by
  rw [children, List.mem_filterMap]
  constructor
  · rintro ⟨⟨k, e⟩, hk, h⟩
    cases k with
    | nil => cases h
    | cons first parent =>
      obtain ⟨rfl, rfl, hfile⟩ : parent = l ∧ first = name ∧ t.behind e = .file content := by
        simpa using h
      have hentry := entry?_eq_some_iff.mpr hk
      cases e with
      | link target =>
        have hfollow : t.follow (first :: parent) = target := by rw [follow, hentry]
        rw [hfollow]
        cases htarget : t.entry? target with
        | none => simp [behind, htarget] at hfile
        | some found =>
          rw [behind, htarget, Option.getD_some] at hfile
          rw [hfile]
      | file found =>
        rw [follow_of_entry hentry rfl, hentry]
        exact congrArg some hfile
      | directory => cases hfile
      | device => cases hfile
  · intro h
    rcases t.follow_cases (name :: l) with hlink | ⟨-, hsame⟩
    · exact ⟨_, entry?_eq_some_iff.mp hlink, by simp [behind, h]⟩
    · rw [hsame] at h
      exact ⟨_, entry?_eq_some_iff.mp h, by simp [behind]⟩

/-- A tree written out place by place. -/
def listed (cwd : Location) (entries : List (Location × Entry)) (root : ([], .directory) ∈ entries)
    (parents : ∀ entry ∈ entries, entry.1 = [] ∨ (entry.1.tail, Entry.directory) ∈ entries)
    (nodup : (entries.map (·.1)).Nodup)
    (links : ∀ entry ∈ entries, ∀ other ∈ entries, entry.2 = .link other.1 → other.2.isLink = false :=
      by decide) : FileTree where
  entries
  cwd
  link_final := links
  root_mem := root
  parent_mem := fun _ _ _ h => (parents _ h).resolve_left (List.cons_ne_nil _ _)
  nodup

theorem children_pairwise (t : FileTree) (l : Location) : (t.children l).Pairwise (·.1 ≠ ·.1) := by
  rw [children, List.pairwise_filterMap]
  refine (List.pairwise_map.mp t.nodup).imp ?_
  rintro ⟨k, v⟩ ⟨k', v'⟩ hne child h child' h' heq
  cases k with
  | nil => cases h
  | cons name parent =>
    cases k' with
    | nil => cases h'
    | cons name' parent' =>
      obtain ⟨rfl, rfl⟩ : parent = l ∧ (name, t.behind v) = child := by simpa using h
      obtain ⟨rfl, rfl⟩ : parent' = parent ∧ (name', t.behind v') = child' := by simpa using h'
      exact hne (congrArg (· :: parent') heq)

theorem list_eq_ok_iff {t : FileTree} {p : Path} {found : List (Bytes × Entry)} :
    t.list p = .ok found ↔
      ∃ l, t.resolve p = .ok l ∧ t.entry? l = some .directory ∧ found = t.children l := by
  rw [list, bind_eq_ok]
  refine exists_congr fun l => and_congr_right fun _ => ?_
  split
  · next hl => simp [hl, eq_comm]
  · next hother hl => simp [hl, show _ ≠ Entry.directory from hother]
  · next hl => simp [hl]

end FileTree

namespace Listing

/-- A file of a directory, or a link to one, that is listed as an extension. -/
structure Qualifies (t : FileTree) (dir : Path) (o : Options) (name : Text) : Prop where
  file : ∃ l content, t.resolve dir = .ok l ∧
    t.entry? (t.follow (name.utf8 :: l)) = some (.file content)
  extension : (Path.splitName name).2 = some o.sourceExtension
  manifest : name ≠ o.manifest
  config : name ≠ o.config
  path : FileTree.pathFault? (dir.join name) = none

theorem candidate?_eq_some_iff {o : Options} {child : Bytes × Entry} {name : Text} :
    candidate? o child = some name ↔ child.1 = name.utf8 ∧ (∃ content, child.2 = .file content) ∧
      (Path.splitName name).2 = some o.sourceExtension ∧ name ≠ o.manifest ∧ name ≠ o.config := by
  obtain ⟨bytes, entry⟩ := child
  cases entry with
  | file content =>
    simp only [candidate?, extension?, Option.bind_eq_bind, Option.bind_eq_some_iff,
      Utf8.decode?_eq_some_iff]
    constructor
    · rintro ⟨text, rfl, h⟩
      split at h
      · next hq => cases h; exact ⟨rfl, ⟨content, rfl⟩, hq⟩
      · cases h
    · rintro ⟨rfl, -, hq⟩
      exact ⟨name, rfl, if_pos hq⟩
  | directory => simp [candidate?]
  | device => simp [candidate?]
  | link target => simp [candidate?]

theorem sort_pairwise (names : List Text) : (sort names).Pairwise (·.utf8 ≤ ·.utf8) := by
  have h : (sort names).Pairwise fun a b => decide (a.utf8 ≤ b.utf8) = true :=
    List.pairwise_mergeSort
      (fun a b c hab hbc => by simpa using List.le_trans (by simpa using hab) (by simpa using hbc))
      (fun a b => by simpa using List.le_total a.utf8 b.utf8) names
  simpa using h

theorem sort_pairwise_of_nodup {names : List Text} (h : names.Nodup) :
    (sort names).Pairwise (·.utf8 < ·.utf8) := by
  have hnodup : (sort names).Nodup := (List.mergeSort_perm names _).nodup_iff.mpr h
  refine (sort_pairwise names).imp₂ ?_ hnodup
  intro a b hle hne
  apply List.not_le.mp
  intro hge
  exact hne (Text.utf8_injective (List.le_antisymm hle hge))

theorem ofNames_eq (dir : Path) (names : List Text) :
    ofNames dir names =
      ⟨((sort names).dropLast.map dir.join).reverse, (sort names).getLast?.map dir.join⟩ := by
  rw [List.map_dropLast, ← List.getLast?_map, ← List.tail_reverse, ← List.head?_reverse, ofNames]
  cases ((sort names).map dir.join).reverse with
  | nil => rfl
  | cons last processed => rfl

theorem ofDirectory_of_pairwise {t : FileTree} {dir : Path} {o : Options} {l : Location}
    (hl : t.list dir = .ok (t.children l)) (names : List Text)
    (hnames : ((t.children l).filterMap (candidate? o)).filter (fun name =>
      (FileTree.pathFault? (dir.join name)).isNone) = names)
    (hs : names.Pairwise fun a b => decide (a.utf8 ≤ b.utf8) = true) :
    ofDirectory t dir o = .ok ⟨(names.dropLast.map dir.join).reverse, names.getLast?.map dir.join⟩ := by
  unfold ofDirectory
  rw [hl]
  simp only [hnames, ofNames_eq, sort, List.mergeSort_of_pairwise hs]

/-- A directory is listed whole: what qualifies is there, and nothing else. -/
theorem ofDirectory_eq_ok {t : FileTree} {dir : Path} {o : Options} {listing : Listing}
    (h : ofDirectory t dir o = .ok listing) :
    ∃ names : List Text, names.Pairwise (·.utf8 < ·.utf8) ∧
      (∀ name, name ∈ names ↔ Qualifies t dir o name) ∧
      listing = ⟨(names.dropLast.map dir.join).reverse, names.getLast?.map dir.join⟩ := by
  unfold ofDirectory at h
  split at h
  · cases h
  next children hchildren =>
  obtain ⟨l, hl, -, rfl⟩ := FileTree.list_eq_ok_iff.mp hchildren
  obtain rfl := Except.ok.inj h
  refine ⟨_, sort_pairwise_of_nodup ?_, fun name => ?_, ofNames_eq dir _⟩
  · refine List.Nodup.sublist List.filter_sublist ?_
    rw [List.Nodup, List.pairwise_filterMap]
    refine (t.children_pairwise l).imp ?_
    intro child child' hne name hname name' hname' heq
    have hfirst := (candidate?_eq_some_iff.mp hname).1
    have hsecond := (candidate?_eq_some_iff.mp hname').1
    exact hne (by rw [hfirst, hsecond, heq])
  · rw [sort, (List.mergeSort_perm _ _).mem_iff, List.mem_filter, List.mem_filterMap]
    constructor
    · rintro ⟨⟨child, hchild, hname⟩, hpath⟩
      obtain ⟨hbytes, ⟨content, hcontent⟩, hext, hmanifest, hconfig⟩ :=
        candidate?_eq_some_iff.mp hname
      refine ⟨⟨l, content, hl, ?_⟩, hext, hmanifest, hconfig, by simpa using hpath⟩
      rw [← hbytes]
      exact FileTree.file_mem_children.mp (hcontent ▸ hchild)
    · rintro ⟨⟨l', content, hl', hentry⟩, hext, hmanifest, hconfig, hpath⟩
      obtain rfl := Except.ok.inj (hl.symm.trans hl')
      refine ⟨⟨(name.utf8, .file content), ?_, ?_⟩, by simpa using hpath⟩
      · exact FileTree.file_mem_children.mpr hentry
      · exact candidate?_eq_some_iff.mpr ⟨rfl, ⟨content, rfl⟩, hext, hmanifest, hconfig⟩

end Listing

/-- What is gathered for a run: the names of all extension files in order, and the sources of all but
the last, in the same order. -/
structure Gathered (t : FileTree) (c : Context) (names : List Text) (sources : List Source) : Prop where
  ordered : names.Pairwise (·.utf8 < ·.utf8)
  mem_iff : ∀ name, name ∈ names ↔ Listing.Qualifies t c.workspace.contrib c.options name
  files : sources.map (·.file) = names.dropLast.map c.workspace.contrib.join
  comment : ∀ s ∈ sources, s.comment = c.options.comment
  content : ∀ s ∈ sources, t.readExtension s.file = .ok s.content

theorem Source.of_mapM_ofFile {t : FileTree} {c : Catalog} {comment : Text} {files : List Path}
    {scans : List Scan} (h : files.mapM (Scan.ofFile t c comment) = .ok scans) :
    ∃ sources : List Source, sources.map (·.file) = files ∧ scans = sources.map Source.scan ∧
      ∀ s ∈ sources, s.comment = comment ∧ t.readExtension s.file = .ok s.content := by
  induction files generalizing scans with
  | nil =>
    cases h
    exact ⟨[], rfl, rfl, by simp⟩
  | cons file rest ih =>
    rw [List.mapM_cons] at h
    obtain ⟨scan, hscan, h⟩ := bind_eq_ok.mp h
    obtain ⟨scans, hscans, h⟩ := bind_eq_ok.mp h
    obtain ⟨content, hcontent, hscan⟩ := bind_eq_ok.mp hscan
    obtain ⟨sources, hfiles, hsources, hread⟩ := ih hscans
    cases h
    cases hscan
    refine ⟨⟨file, comment, content⟩ :: sources, ?_, ?_, ?_⟩
    · rw [List.map_cons, hfiles]
    · rw [List.map_cons, hsources, scan, c.scan_eq]
    · exact List.forall_mem_cons.mpr ⟨⟨rfl, hcontent⟩, hread⟩

theorem Context.sources_of_scan {t : FileTree} {c : Context} {listing : Listing} {scans : List Scan}
    (h : c.scan t = .ok (listing, scans)) :
    Listing.ofDirectory t c.workspace.contrib c.options = .ok listing ∧
      ∃ sources : List Source, sources.map (·.file) = listing.processed ∧
        scans = sources.map Source.scan ∧
        ∀ s ∈ sources, s.comment = c.options.comment ∧ t.readExtension s.file = .ok s.content := by
  obtain ⟨listing', hlisting, h⟩ := bind_eq_ok.mp h
  obtain ⟨scans', hscans, h⟩ := bind_eq_ok.mp h
  cases h
  exact ⟨hlisting, Source.of_mapM_ofFile hscans⟩

/-- A scan goes through what is gathered from the back to the front. -/
theorem Context.scan_eq_ok {t : FileTree} {c : Context} {listing : Listing} {scans : List Scan}
    (h : c.scan t = .ok (listing, scans)) :
    ∃ names sources, Gathered t c names sources ∧ scans = sources.reverse.map Source.scan := by
  obtain ⟨hlisting, sources, hfiles, rfl, hread⟩ := Context.sources_of_scan h
  obtain ⟨names, hordered, hmem, rfl⟩ := Listing.ofDirectory_eq_ok hlisting
  refine ⟨names, sources.reverse, ⟨hordered, hmem, ?_, ?_, ?_⟩, ?_⟩
  · rw [List.map_reverse, hfiles, List.reverse_reverse]
  · exact fun s hs => (hread s (List.mem_reverse.mp hs)).1
  · exact fun s hs => (hread s (List.mem_reverse.mp hs)).2
  · rw [List.reverse_reverse]

end TemplateSplice
