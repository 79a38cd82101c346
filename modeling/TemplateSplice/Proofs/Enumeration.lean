import TemplateSplice.Proofs.FileName

/-! What a listing of a directory holds. The names of its extension files are in it once each, in strictly
increasing order of their bytes, and since there is one such order only, it does not matter in which order
the directory brings its entries. A file is passed over when the path of its name is too long to be looked
up, which a short name can have in a directory that is reached by a long one. -/

namespace TemplateSplice

open FileTree

namespace Listing

/-- A regular file of a directory, there or behind a link, that is an extension: its name is text, cut at
the last dot into a stem and the extension that is looked for, and not that of an output. -/
structure IsExtension (t : FileTree) (l : Location) (o : Options) (name : Text) : Prop where
  file : ∃ content, t.entry? (t.follow (name.utf8 :: l)) = some (.file content)
  extension : ∃ stem, stem ≠ [] ∧ '.' ∉ o.sourceExtension ∧ name = stem ++ '.' :: o.sourceExtension
  manifest : name ≠ o.manifest
  config : name ≠ o.config

variable {t t' : FileTree} {dir : Path} {l : Location} {o : Options}

theorem qualifies_iff (hgenuine : t.Genuine) (hl : t.resolve dir = .ok l) (name : Text) :
    Qualifies t dir o name ↔
      IsExtension t l o name ∧ Text.byteLength (dir.join name) ≤ pathLimit := by
  constructor
  · intro h
    obtain ⟨k, content, hk, hfile⟩ := h.file
    obtain rfl := Except.ok.inj (hl.symm.trans hk)
    obtain ⟨_, hentry⟩ := exists_entry_of_follow hfile
    exact ⟨⟨⟨content, hfile⟩, Path.extension_eq_some_iff.mp h.extension, h.manifest, h.config⟩,
      (hgenuine.pathFault?_join_eq_none_iff hentry hl).mp h.path⟩
  · rintro ⟨h, hshort⟩
    obtain ⟨content, hfile⟩ := h.file
    obtain ⟨_, hentry⟩ := exists_entry_of_follow hfile
    exact ⟨⟨l, content, hl, hfile⟩, Path.extension_eq_some_iff.mpr h.extension, h.manifest, h.config,
      (hgenuine.pathFault?_join_eq_none_iff hentry hl).mpr hshort⟩

theorem exists_ofDirectory (hl : t.resolve dir = .ok l) (hdir : t.entry? l = some .directory)
    (o : Options) : ∃ listing, ofDirectory t dir o = .ok listing := by
  unfold ofDirectory
  rw [list_eq_ok_iff.mpr ⟨l, hl, hdir, rfl⟩]
  exact ⟨_, rfl⟩

theorem grown_of_perm (hcwd : t'.cwd = t.cwd) (h : t'.entries.Perm t.entries) : Grown [] t t' := by
  refine ⟨hcwd, fun l => Or.inl (Option.ext fun e => ?_)⟩
  rw [entry?_eq_some_iff, entry?_eq_some_iff, h.mem_iff]

theorem ofDirectory_of_perm (hcwd : t'.cwd = t.cwd) (h : t'.entries.Perm t.entries) {listing : Listing}
    (hlisting : ofDirectory t dir o = .ok listing) : ofDirectory t' dir o = .ok listing := by
  refine ofDirectory_of_grown (grown_of_perm hcwd h) hlisting ?_
  intro name k hk
  cases hk

/-- A listing, read from the back to the front and with its entry point at the end, is the paths of the
extension files of its directory, in strictly increasing order of their names, which are what the paths end
in: each of these files is there once, if its path can be looked up, and no other one. There is no entry
point exactly when there is no such file, and the order of a directory's entries does not show. -/
theorem extensions_of_listing (hgenuine : t.Genuine) (hl : t.resolve dir = .ok l)
    (hdir : t.entry? l = some .directory) (o : Options) :
    ∃ (listing : Listing) (names : List Text),
      ofDirectory t dir o = .ok listing ∧
      listing.processed.reverse ++ listing.entryPoint.toList = names.map dir.join ∧
      (∀ name ∈ names, Path.fileName? (dir.join name) = some name) ∧
      names.Pairwise (·.utf8 < ·.utf8) ∧
      (∀ name, name ∈ names ↔
        IsExtension t l o name ∧ Text.byteLength (dir.join name) ≤ pathLimit) ∧
      (listing.entryPoint = none ↔
        ∀ name, IsExtension t l o name → pathLimit < Text.byteLength (dir.join name)) ∧
      ∀ t' : FileTree, t'.cwd = t.cwd → t'.entries.Perm t.entries →
        ofDirectory t' dir o = .ok listing := by
  obtain ⟨listing, hlisting⟩ := exists_ofDirectory hl hdir o
  obtain ⟨names, hordered, hqualifies, rfl⟩ := ofDirectory_eq_ok hlisting
  have hmem : ∀ name, name ∈ names ↔
      IsExtension t l o name ∧ Text.byteLength (dir.join name) ≤ pathLimit :=
    fun name => (hqualifies name).trans (qualifies_iff hgenuine hl name)
  refine ⟨_, names, hlisting, ?_, ?_, hordered, hmem, ?_, fun t' hcwd hperm =>
    ofDirectory_of_perm hcwd hperm hlisting⟩
  · rcases List.eq_nil_or_concat' names with rfl | ⟨front, last, rfl⟩
    · rfl
    · rw [List.dropLast_concat, List.getLast?_concat, List.reverse_reverse, List.map_append]
      rfl
  · intro name hname
    obtain ⟨content, hfile⟩ := ((hmem name).mp hname).1.file
    obtain ⟨_, hentry⟩ := exists_entry_of_follow hfile
    exact Path.fileName?_join (hgenuine.isName hentry) dir
  · rw [Option.map_eq_none_iff, List.getLast?_eq_none_iff, List.eq_nil_iff_forall_not_mem]
    refine forall_congr' fun name => ?_
    rw [hmem, not_and, Nat.not_le]

/-! A directory with files of all kinds, and one that is reached by a path which is itself just short enough:
the name of a directory and then nothing but slashes. -/

def mixedTree : FileTree :=
  let ext := [Text.utf8 "ext".toList]
  .listed []
    [([], .directory), (ext, .directory), (Text.utf8 "é.b.hs".toList :: ext, .file []),
      (Text.utf8 "Config.hs".toList :: ext, .file []), (Text.utf8 ".hs".toList :: ext, .file []),
      (Text.utf8 "dir.hs".toList :: ext, .directory), ((0xFF :: Text.utf8 ".hs".toList) :: ext, .file []),
      (Text.utf8 "a.hs".toList :: ext, .file [])]
    (by decide) (by decide) (by decide)

theorem extensions_of_mixed_directory :
    mixedTree.Genuine ∧ ∃ (listing : Listing) (names : List Text),
      ofDirectory mixedTree "ext".toList {} = .ok listing ∧
      listing.processed.reverse ++ listing.entryPoint.toList = names.map (Path.join "ext".toList) ∧
      "é.b.hs".toList ∈ names ∧ ".hs".toList ∉ names := by
  have hgenuine : mixedTree.Genuine := by
    unfold Genuine
    decide +kernel
  have hl : mixedTree.resolve "ext".toList = .ok [Text.utf8 "ext".toList] := rfl
  obtain ⟨listing, names, hlisting, hpaths, -, -, hmem, -⟩ := extensions_of_listing hgenuine hl rfl {}
  refine ⟨hgenuine, listing, names, hlisting, hpaths, (hmem _).mpr ⟨?_, by decide⟩, fun hhidden => ?_⟩
  · exact ⟨⟨[], rfl⟩, ⟨"é.b".toList, by decide, by decide, rfl⟩, by decide, by decide⟩
  · obtain ⟨stem, hstem, -, hname⟩ := ((hmem _).mp hhidden).1.extension
    exact hstem (List.append_left_eq_self.mp hname.symm)

def windingPath : Path :=
  "ext".toList ++ List.replicate 4090 '/'

def windingTree : FileTree :=
  let ext := [Text.utf8 "ext".toList]
  .listed [] [([], .directory), (ext, .directory), (Text.utf8 "A.hs".toList :: ext, .file [])]
    (by decide) (by decide) (by decide)

theorem byteLength_slashes (n : Nat) : Text.byteLength (List.replicate n '/') = n := by
  induction n with
  | zero => rfl
  | succ n ih =>
    rw [List.replicate_succ, ← List.singleton_append, Text.byteLength_append, ih, Nat.add_comm]
    rfl

theorem split_slashes (n : Nat) : Text.split '/' (List.replicate n '/') = List.replicate (n + 1) [] := by
  induction n with
  | zero => rfl
  | succ n ih => rw [List.replicate_succ, Text.split, if_pos rfl, ih, ← List.replicate_succ]

theorem walk_current {l : Location} (hl : t.entry? l = some .directory) (n : Nat) :
    t.walk l (List.replicate n .current) = .ok l := by
  have hsame : t.follow l = l := follow_of_entry hl rfl
  induction n with
  | zero => rfl
  | succ n ih =>
    refine (walk_cons_eq_ok_iff (by simp)).mpr ⟨?_, l, ?_, ih⟩
    · rw [hsame, hl]
    · rw [hsame]
      rfl

theorem resolve_windingPath : windingTree.resolve windingPath = .ok [Text.utf8 "ext".toList] := by
  have hsteps : Path.steps windingPath = .name "ext".toList :: List.replicate 4090 .current := by
    have hsplit : Text.split '/' windingPath = "ext".toList :: List.replicate 4090 [] := by
      rw [windingPath, List.replicate_succ, Text.split_append, split_slashes]
      rfl
    rw [Path.steps, hsplit]
    simp only [List.map_replicate]
    rfl
  refine resolve_eq_ok_iff.mpr ⟨[Text.utf8 "ext".toList],
    locate_eq_ok_iff.mpr ⟨pathFault?_eq_none_iff.mpr ⟨?_, ?_, ?_⟩, ?_⟩, rfl⟩
  · exact List.append_ne_nil_of_left_ne_nil (by decide) _
  · rw [windingPath, List.mem_append, List.mem_replicate]
    decide
  · rw [windingPath, Text.byteLength_append, byteLength_slashes]
    decide
  · rw [hsteps]
    exact (walk_cons_eq_ok_iff (by simp)).mpr ⟨rfl, _, rfl, walk_current rfl 4090⟩

/-- The directory can be listed, and its only file, an extension, is not. -/
theorem file_passed_over_on_long_path :
    windingTree.Genuine ∧ windingTree.resolve windingPath = .ok [Text.utf8 "ext".toList] ∧
      windingTree.entry? [Text.utf8 "ext".toList] = some .directory ∧
      IsExtension windingTree [Text.utf8 "ext".toList] {} "A.hs".toList ∧
      ofDirectory windingTree windingPath {} = .ok ⟨[], none⟩ := by
  refine ⟨by unfold Genuine; decide +kernel, resolve_windingPath, rfl, ?_, ?_⟩
  · exact ⟨⟨[], rfl⟩, ⟨['A'], by decide, by decide, rfl⟩, by decide, by decide⟩
  · have hlist := list_eq_ok_iff.mpr ⟨_, resolve_windingPath, rfl, rfl⟩
    refine ofDirectory_of_pairwise hlist [] ?_ .nil
    have hcandidates : (windingTree.children [Text.utf8 "ext".toList]).filterMap (candidate? {}) =
        ["A.hs".toList] := by
      decide +kernel
    have hlong : pathLimit < Text.byteLength (windingPath.join "A.hs".toList) := by
      refine Nat.lt_of_lt_of_le ?_ (Path.le_byteLength_join windingPath (by decide))
      rw [windingPath, Text.byteLength_append, byteLength_slashes]
      decide
    have hfault : (pathFault? (windingPath.join "A.hs".toList)).isNone = false := by
      rw [← Bool.not_eq_true, Option.isNone_iff_eq_none, pathFault?_eq_none_iff]
      exact fun hnone => Nat.not_le.mpr hlong hnone.2.2
    rw [hcandidates, List.filter_singleton, hfault]
    rfl

end Listing
end TemplateSplice
