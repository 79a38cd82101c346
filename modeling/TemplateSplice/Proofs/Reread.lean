import TemplateSplice.Proofs.Growth

/-! What a run reads in a tree that has been written to. A file is read as before unless it lies in a
place that was written to, whatever directories were made on the way; so as long as no template and no
name of an extension is among these places, the templates are the same, the same extensions are listed,
and a scan finds in them what it found. -/

namespace TemplateSplice

namespace FileTree

variable {t t' : FileTree}

/-- No name holds the byte that separates the parts of a path. -/
def WellNamed (t : FileTree) : Prop :=
  ∀ entry ∈ t.entries, ∀ name ∈ entry.1, (0x2F : UInt8) ∉ name

theorem stat_eq_ok_iff {p : Path} {e : Entry} :
    t.stat p = .ok e ↔ ∃ l, t.resolve p = .ok l ∧ t.entry? l = some e := by
  rw [stat, bind_eq_ok]
  refine exists_congr fun l => and_congr_right fun _ => ?_
  cases t.entry? l <;> simp

theorem WellNamed.part (h : t.WellNamed) {name : Text} {l : Location} {e : Entry}
    (he : t.entry? (name.utf8 :: l) = some e) : '/' ∉ name := by
  intro hslash
  apply h _ (entry?_eq_some_iff.mp he) name.utf8 List.mem_cons_self
  exact List.mem_flatMap.mpr ⟨'/', hslash, by decide⟩

theorem isFile_congr {p : Path} (h : t'.stat p = t.stat p) : t'.isFile p = t.isFile p := by
  unfold isFile
  rw [h]

theorem read_congr {p : Path} (h : t'.stat p = t.stat p) : t'.read p = t.read p := by
  unfold read
  rw [h]

theorem isFile_eq_true_iff {p : Path} : t.isFile p = true ↔ ∃ content, t.stat p = .ok (.file content) := by
  unfold isFile
  split
  · next content h => simp [h]
  · next hother => simpa using hother

theorem entry?_of_isFile {p : Path} {l : Location} (hfile : t.isFile p = true) (hl : t.resolve p = .ok l) :
    ∃ content, t.entry? l = some (.file content) := by
  obtain ⟨content, hstat⟩ := isFile_eq_true_iff.mp hfile
  obtain ⟨k, hk, hentry⟩ := stat_eq_ok_iff.mp hstat
  obtain rfl := Except.ok.inj (hl.symm.trans hk)
  exact ⟨content, hentry⟩

theorem readText_of_stat {p : Path} {text : Text} (h : t.stat p = .ok (.file text.utf8)) :
    t.readText p = .ok text := by
  have hread : t.read p = .ok text.utf8 := bind_eq_ok.mpr ⟨_, h, rfl⟩
  refine bind_eq_ok.mpr ⟨_, hread, ?_⟩
  rw [Utf8.decode?_eq_some_iff.mpr rfl]

theorem read_eq_ok {p : Path} {content : Bytes} (h : t.read p = .ok content) :
    ∃ e, t.stat p = .ok e ∧ e ≠ .directory := by
  obtain ⟨e, he, h⟩ := bind_eq_ok.mp h
  refine ⟨e, he, ?_⟩
  rintro rfl
  cases h

end FileTree

open FileTree

variable {t t' : FileTree} {written : List Location}

/-- What is found under a name and was written to is one of the outputs. -/
def OnlyOutputs (t : FileTree) (o : Options) (written : List Location) : Prop :=
  ∀ (name : Text) (l : Location), t.follow (name.utf8 :: l) ∈ written →
    name = o.manifest ∨ name = o.config

namespace Listing

theorem Qualifies.not_mem_written {dir : Path} {o : Options} {name : Text} (h : Qualifies t dir o name)
    (hw : OnlyOutputs t o written) (l : Location) : t.follow (name.utf8 :: l) ∉ written := by
  intro hmem
  rcases hw name l hmem with hmanifest | hconfig
  · exact h.manifest hmanifest
  · exact h.config hconfig

theorem Qualifies.iff_of_grown (h : Grown written t t') {dir : Path} {o : Options} {l : Location}
    (hl : t.resolve dir = .ok l) (hw : OnlyOutputs t o written) (name : Text) :
    Qualifies t' dir o name ↔ Qualifies t dir o name := by
  constructor
  · intro hname
    obtain ⟨l', content, hl', hfile⟩ := hname.file
    obtain rfl := Except.ok.inj ((h.resolve hl).symm.trans hl')
    rw [h.follow] at hfile
    have hother : t.follow (name.utf8 :: l) ∉ written := fun hmem =>
      (hw name l hmem).elim hname.manifest hname.config
    exact ⟨⟨l, content, hl, h.file_of_file hother hfile⟩, hname.extension, hname.manifest,
      hname.config, hname.path⟩
  · intro hname
    obtain ⟨l', content, hl', hfile⟩ := hname.file
    have hafter := h.kept (hname.not_mem_written hw l') hfile
    rw [← h.follow] at hafter
    exact ⟨⟨l', content, h.resolve hl', hafter⟩, hname.extension, hname.manifest, hname.config,
      hname.path⟩

theorem nodup_of_pairwise {names : List Text} (h : names.Pairwise (·.utf8 < ·.utf8)) : names.Nodup :=
  h.imp (by rintro a b hlt rfl; exact List.lt_irrefl _ hlt)

theorem eq_of_pairwise {names names' : List Text} (h : names.Pairwise (·.utf8 < ·.utf8))
    (h' : names'.Pairwise (·.utf8 < ·.utf8)) (hmem : ∀ name, name ∈ names ↔ name ∈ names') :
    names = names' := by
  apply List.Perm.eq_of_pairwise ?_ h h'
    ((List.perm_ext_iff_of_nodup (nodup_of_pairwise h) (nodup_of_pairwise h')).mpr hmem)
  intro a b _ _ hab hba
  exact absurd hba (List.lt_asymm hab)

theorem ofDirectory_of_grown (h : Grown written t t') {dir : Path} {o : Options} {listing : Listing}
    (hlisting : ofDirectory t dir o = .ok listing) (hw : OnlyOutputs t o written) :
    ofDirectory t' dir o = .ok listing := by
  obtain ⟨names, hordered, hmem, rfl⟩ := ofDirectory_eq_ok hlisting
  -- the directory can still be listed
  obtain ⟨l, hl, hlist'⟩ : ∃ l, t.resolve dir = .ok l ∧ t'.list dir = .ok (t'.children l) := by
    unfold ofDirectory at hlisting
    split at hlisting
    · cases hlisting
    next found hfound =>
    obtain ⟨l, hl, hdirectory, -⟩ := list_eq_ok_iff.mp hfound
    exact ⟨l, hl, list_eq_ok_iff.mpr ⟨l, h.resolve hl, h.directory hdirectory, rfl⟩⟩
  obtain ⟨listing', hlisting'⟩ : ∃ listing', ofDirectory t' dir o = .ok listing' := by
    unfold ofDirectory
    rw [hlist']
    exact ⟨_, rfl⟩
  obtain ⟨names', hordered', hmem', rfl⟩ := ofDirectory_eq_ok hlisting'
  obtain rfl : names = names' := by
    apply eq_of_pairwise hordered hordered'
    intro name
    rw [hmem, hmem', Qualifies.iff_of_grown h hl hw]
  exact hlisting'

end Listing

theorem FileTree.readExtension_eq_ok {p : Path} {content : Text} (h : t.readExtension p = .ok content) :
    ∃ bytes, t.read p = .ok bytes := by
  unfold readExtension at h
  split at h
  · cases h
  · next bytes hbytes => exact ⟨bytes, hbytes⟩

variable {c : Context}

theorem Context.readTemplate_eq_ok {target : Target} {template : Text}
    (h : c.readTemplate t target = .ok template) :
    ∃ content, t.stat (c.template target) = .ok (.file content) := by
  simp only [readTemplate] at h
  split_ifs at h with hfile
  exact isFile_eq_true_iff.mp (by simpa using hfile)

theorem Context.readTemplate_congr {target : Target}
    (h : t'.stat (c.template target) = t.stat (c.template target)) :
    c.readTemplate t' target = c.readTemplate t target := by
  simp only [readTemplate, readText, isFile_congr h, read_congr h]

theorem Context.isName_of_readTemplate {target : Target} {template : Text}
    (hread : c.readTemplate t target = .ok template) (hpart : '/' ∉ c.options.fileName target) :
    Path.IsName (c.options.fileName target) := by
  obtain ⟨content, hstat⟩ := readTemplate_eq_ok hread
  obtain ⟨k, hk, hentry⟩ := stat_eq_ok_iff.mp hstat
  apply isName_of_resolve hpart hk
  simp [hentry]

end TemplateSplice
