import TemplateSplice.Proofs.Intact

/-! Writing that fails. The outputs are written one after the other and nothing is taken back, so of the
first output that fails nothing is there, or as much as found room before the writing broke off, and what
comes before it stays. With plain names all files are mostly left as they were: the outputs then lie in one
directory, which is there once the manifest is written, and where both would find room in their places there
is little that keeps the config from being written and the manifest not. -/

namespace TemplateSplice

namespace Path

theorem length_steps (p : Path) : (steps p).length = (Text.split '/' p).length := by
  unfold steps
  cases Text.split '/' p <;> simp

theorem split_join {name : Text} (h : '/' ∉ name) (dir : Path) :
    Text.split '/' (dir.join name) = (Text.split '/' (dir.join [])).dropLast ++ [name] := by
  rw [join_eq h]
  rcases join_nil_cases dir with hdir | ⟨base, hdir⟩
  · rw [hdir, List.nil_append, Text.split_of_not_mem h]
    rfl
  · rw [hdir, List.append_assoc, List.singleton_append, Text.split_append, Text.split_of_not_mem h,
      Text.split_append, Text.split_of_not_mem List.not_mem_nil, List.dropLast_concat]

theorem ancestors_join {name : Text} (h : IsName name) (dir : Path) :
    ancestors (dir.join name) =
      trail ((lead dir).zip (Text.split '/' (dir.join [])).dropLast).reverse := by
  have hlength : (lead dir).length = (Text.split '/' (dir.join [])).dropLast.length := by
    rw [lead, List.length_dropLast, List.length_dropLast, length_steps]
  rw [ancestors, steps_join h.part, split_join h.part, List.zip_append hlength, h.component,
    List.reverse_append]
  simp [trail]

end Path

namespace FileTree

variable {t t' : FileTree} {p : Path}

theorem isDirectory_eq_true_iff : t.isDirectory p = true ↔ t.stat p = .ok .directory := by
  unfold isDirectory
  split <;> simp_all

theorem Grown.isDirectory {written : List Location} (h : Grown written t t')
    (hp : t.isDirectory p = true) : t'.isDirectory p = true := by
  obtain ⟨l, hl, hentry⟩ := stat_eq_ok_iff.mp (isDirectory_eq_true_iff.mp hp)
  exact isDirectory_eq_true_iff.mpr (stat_eq_ok_iff.mpr ⟨l, h.resolve hl, h.directory hentry⟩)

theorem isDirectory_of_ensureDirectory (h : t.ensureDirectory p = (t', none)) :
    t'.isDirectory p = true := by
  unfold ensureDirectory at h
  split at h
  · next made hmade =>
    cases h
    obtain ⟨l, hl, hmake⟩ := bind_eq_ok.mp hmade
    have hentry : t'.entry? l = some .directory := by
      rw [(put_of_makeDirectory hmake).2.entry, if_pos rfl]
    have hresolve : t'.resolve p = .ok l :=
      resolve_eq_ok_iff.mpr ⟨l, (Grown.makeDirectory hmake).locate hl, follow_of_entry hentry rfl⟩
    exact isDirectory_eq_true_iff.mpr (stat_eq_ok_iff.mpr ⟨l, hresolve, hentry⟩)
  · next hfault =>
    split at h
    · next hdirectory => cases h; exact hdirectory
    · cases h

theorem isDirectory_of_makeDirectories {outer : List Path}
    (h : t.makeDirectories (p :: outer) = (t', none)) : t'.isDirectory p = true := by
  unfold makeDirectories at h
  split at h
  · split at h
    · exact isDirectory_of_ensureDirectory h
    · next hfailed => exact absurd h (by simpa using hfailed t')
  · exact isDirectory_of_ensureDirectory h

theorem makeDirectories_of_isDirectory (h : t.isDirectory p = true) (outer : List Path) :
    t.makeDirectories (p :: outer) = (t, none) := by
  obtain ⟨l, hl, hdirectory⟩ := stat_eq_ok_iff.mp (isDirectory_eq_true_iff.mp h)
  obtain ⟨k, hk, rfl⟩ := resolve_eq_ok_iff.mp hl
  obtain ⟨e, hentry⟩ := exists_entry_of_follow hdirectory
  have hexists : t.makeDirectoryAt p = .error .alreadyExists := by
    unfold makeDirectoryAt
    rw [hk]
    show t.makeDirectory k = _
    unfold makeDirectory
    split
    · rfl
    · next hnone => rw [hnone] at hentry; cases hentry
  simp only [makeDirectories, ensureDirectory, hexists, h, if_pos]

/-- Outside some places the files of two trees are the same, with the same bytes, whatever directories
they have. -/
def SameFilesBut (places : List Location) (t t' : FileTree) : Prop :=
  ∀ l ∉ places, ∀ content, t'.entry? l = some (.file content) ↔ t.entry? l = some (.file content)

def SameFiles (t t' : FileTree) : Prop :=
  SameFilesBut [] t t'

theorem Grown.sameFilesBut {written : List Location} (h : Grown written t t') :
    SameFilesBut written t t' :=
  fun _ hl _ => ⟨h.file_of_file hl, h.kept hl⟩

/-- What is written to a device alone changes no file. -/
theorem sameFiles_of_device {l : Location} (h : Grown [l] t t') (hl : t'.entry? l = some .device) :
    SameFiles t t' := by
  intro k _ content
  by_cases hk : k = l
  · subst hk
    rcases h.entry k with hsame | ⟨-, hmade⟩ | ⟨-, -, written, hwritten⟩
    · rw [hsame]
    · rw [hl] at hmade; cases hmade
    · rw [hl] at hwritten; cases hwritten
  · exact h.sameFilesBut k (by simpa using hk) content

theorem writeAt_of_taken {l : Location} {content : Bytes}
    (htaken : t.taken l content = .ok (content, none)) (hparent : t.entry? l.tail = some .directory)
    (hl : t.entry? l ≠ some .directory) : (t.writeAt l content).2 = none := by
  cases l with
  | nil => exact absurd hparent hl
  | cons name parent =>
    simp only [writeAt, htaken, place]
    split_ifs
    · rfl
    · split
      · next hfailed =>
        split at hfailed
        · cases hfailed
        · next e hother hentry =>
          obtain rfl := Option.some.inj (hparent.symm.trans hentry)
          exact absurd rfl hother
        · next hnone => cases hparent.symm.trans hnone
      · rfl

end FileTree

namespace Generation

open FileTree

variable {t t' : FileTree} {o : Output} {g : Generation}

/-- An output that was broken off: the file that its path leads to holds as much of it as found room. -/
structure BrokenOff (t : FileTree) (o : Output) (l : Location) : Prop where
  resolve : t.resolve o.path = .ok l
  limit : ∃ n cause, t.hindrance l = some (.limit n cause) ∧ n < o.content.utf8.length ∧
    t.entry? l = some (.file (o.content.utf8.take n))

theorem BrokenOff.not_taken {l : Location} (h : BrokenOff t o l) :
    t.taken l o.content.utf8 ≠ .ok (o.content.utf8, none) := by
  obtain ⟨n, cause, hhindrance, hlong, -⟩ := h.limit
  simp [taken, hhindrance, Nat.not_le.mpr hlong]

theorem write_failed (paths : List Path) {fault : FileFault}
    (h : t.write o.path o.content.utf8 = (t', some fault)) :
    t' = t ∨ ∃ l, GrownAlong paths [l] t t' ∧ BrokenOff t' o l := by
  unfold FileTree.write at h
  split at h
  · cases h
    exact Or.inl rfl
  · next l hl =>
    rcases writeAt_cases (ne_link_of_resolve hl) h with ⟨rfl, -⟩ | ⟨part, htaken, hplace, hput⟩
    · exact Or.inl rfl
    · refine Or.inr ⟨l, .of_put hplace hput, (Grown.of_put hplace hput).resolve hl, ?_⟩
      unfold taken at htaken
      split at htaken
      · cases htaken
      · cases htaken
      · next n cause hlimit =>
        split_ifs at htaken with hlong
        · cases htaken
        · cases htaken
          refine ⟨n, fault, ?_, Nat.not_le.mp hlong, ?_⟩
          · rw [hput.hindrance, hlimit]
          · rw [hput.entry, if_pos rfl]

theorem writeOutput_of_directories (h : t.makeDirectories o.path.ancestors = (t, none)) :
    writeOutput t o =
      ((t.write o.path o.content.utf8).1, (t.write o.path o.content.utf8).2.map .file) := by
  simp only [writeOutput, h]

/-- An output that cannot be written leaves nothing behind but directories, or is broken off. -/
theorem failed_output {fault : Fault} (h : writeOutput t o = (t', some fault)) :
    GrownAlong o.path.ancestors [] t t' ∨
      ∃ l, GrownAlong o.path.ancestors [l] t t' ∧ BrokenOff t' o l := by
  have hmade : GrownAlong o.path.ancestors [] t (t.makeDirectories o.path.ancestors).1 :=
    GrownAlong.makeDirectories (fun _ hp => hp) t
  unfold writeOutput at h
  split at h
  · next made f hfailed =>
    cases h
    rw [hfailed] at hmade
    exact Or.inl hmade
  · next made hdone =>
    rw [hdone] at hmade
    split at h
    next after fault? hwrite =>
    obtain ⟨rfl, hfault⟩ := Prod.mk.inj h
    obtain ⟨f, rfl, -⟩ := Option.map_eq_some_iff.mp hfault
    rcases write_failed _ hwrite with rfl | ⟨l, hgrown, hbroken⟩
    · exact Or.inl hmade
    · exact Or.inr ⟨l, hmade.trans hgrown, hbroken⟩

theorem makeDirectories_of_writeOutput (h : writeOutput t o = (t', none)) :
    t'.makeDirectories o.path.ancestors = (t', none) := by
  unfold writeOutput at h
  split at h
  · cases h
  · next made hmade =>
    split at h
    next after fault? hwrite =>
    obtain ⟨rfl, hfault⟩ := Prod.mk.inj h
    rw [Option.map_eq_none_iff.mp hfault] at hwrite
    obtain ⟨l, hl, hwrite⟩ := write_eq_none hwrite
    have hgrown := (Grown.writeAt (ne_link_of_resolve hl) hwrite).1
    cases hancestors : o.path.ancestors with
    | nil => rfl
    | cons p outer =>
      rw [hancestors] at hmade
      exact makeDirectories_of_isDirectory
        (hgrown.isDirectory (isDirectory_of_makeDirectories hmade)) outer

/-- Once an output is written, the path of another one in the same directory leads somewhere, unless it is
too long, and its directories are there. -/
theorem resolve_sibling {dir : Path} {m n : Text} {o' : Output} (hm : Path.IsName m)
    (hn : Path.IsName n) (hshort : Text.byteLength n ≤ nameLimit) (hnul : '\x00' ∉ n)
    (hlong : Text.byteLength (dir.join n) ≤ pathLimit) (ho : o.path = dir.join m)
    (ho' : o'.path = dir.join n) (h : writeOutput t o = (t', none)) :
    t'.makeDirectories o'.path.ancestors = (t', none) ∧ ∃ l, t'.resolve o'.path = .ok l := by
  constructor
  · rw [ho', Path.ancestors_join hn, ← Path.ancestors_join hm, ← ho]
    exact makeDirectories_of_writeOutput h
  · obtain ⟨_, -, hlanded⟩ := landed_of_writeOutput (fun _ hp => hp) h
    have hresolve := hlanded.resolve
    rw [ho, resolve_join_eq_ok_iff hm.part] at hresolve
    obtain ⟨hfault, l, hholds, -⟩ := hresolve
    have henter : enter l (Path.Component.ofPart n) = .ok (n.utf8 :: l) := by
      rw [hn.component]
      exact enter_name_eq_ok_iff.mpr ⟨hshort, rfl⟩
    rw [ho']
    exact ⟨_, (resolve_join_eq_ok_iff hn.part).mpr
      ⟨pathFault?_join hm.part hn.part hn.ne_nil hnul hlong hfault, l, hholds, _, henter, rfl⟩⟩

/-- What is there of the outputs after a writing that failed. -/
inductive Remains (t t' : FileTree) (g : Generation) : Prop
  | nothing (files : SameFiles t t')
  | brokenManifest {l : Location} (manifest : BrokenOff t' g.manifest l) (files : SameFilesBut [l] t t')
  | manifest {l : Location} (resolve : t'.resolve g.manifest.path = .ok l)
      (manifest : t'.entry? l = some (.file g.manifest.content.utf8)) (files : SameFilesBut [l] t t')
  /-- The manifest has been written before, unless the config is in its place. -/
  | brokenConfig {l l' : Location} (resolve : t'.resolve g.manifest.path = .ok l)
      (manifest : l ≠ l' → Landed t' g.manifest l) (config : BrokenOff t' g.config l')
      (files : SameFilesBut [l, l'] t t')

theorem failed_write_cases {fault : Fault} (h : g.write t = (t', some fault)) :
    writeOutput t g.manifest = (t', some fault) ∨
      ∃ between, writeOutput t g.manifest = (between, none) ∧
        writeOutput between g.config = (t', some fault) := by
  rw [write, outputs, writeOutputs] at h
  split at h
  · next hfirst =>
    cases h
    exact Or.inl hfirst
  · next between hfirst =>
    rw [writeOutputs] at h
    split at h
    · next hsecond =>
      cases h
      exact Or.inr ⟨between, hfirst, hsecond⟩
    · cases h

theorem remains_of_failed_write {fault : Fault} (h : g.write t = (t', some fault)) : Remains t t' g := by
  rcases failed_write_cases h with hfirst | ⟨between, hfirst, hsecond⟩
  · rcases failed_output hfirst with halong | ⟨l, halong, hbroken⟩
    · exact .nothing halong.grown.sameFilesBut
    · exact .brokenManifest hbroken halong.grown.sameFilesBut
  · obtain ⟨l, halong, hlanded⟩ := landed_of_writeOutput (fun _ hp => hp) hfirst
    rcases failed_output hsecond with halong' | ⟨l', halong', hbroken⟩
    · have hlanded' : Landed t' g.manifest l := hlanded.grown halong'.grown List.not_mem_nil
      have hall : Grown [l] t t' := halong.grown.trans halong'.grown
      rcases hlanded'.entry with hfile | hdevice
      · exact .manifest hlanded'.resolve hfile hall.sameFilesBut
      · exact .nothing (sameFiles_of_device hall hdevice)
    · have hall : Grown [l, l'] t t' := halong.grown.trans halong'.grown
      refine .brokenConfig (halong'.grown.resolve hlanded.resolve) (fun hne => ?_) hbroken
        hall.sameFilesBut
      exact hlanded.grown halong'.grown (by simpa using hne)

/-- What a target is named by is short and holds no NUL, as its template has been read by that name. -/
theorem name_of_run {c : Context} (hrun : run t c = .ok g) (hplain : c.options.PlainNames)
    (target : Target) :
    Text.byteLength (c.options.fileName target) ≤ nameLimit ∧
      '\x00' ∉ c.options.fileName target := by
  obtain ⟨template, htemplate⟩ := template_of_run hrun target
  obtain ⟨content, hstat⟩ := Context.readTemplate_eq_ok htemplate
  obtain ⟨k, hk, -⟩ := stat_eq_ok_iff.mp hstat
  have hname := hplain.isName hrun target
  obtain ⟨hfault, l, -, _, henter, -⟩ := (resolve_join_eq_ok_iff hname.part).mp hk
  constructor
  · rw [hname.component] at henter
    exact (enter_name_eq_ok_iff.mp henter).1
  · have hclean := (pathFault?_eq_none_iff.mp hfault).2.1
    rw [Path.join_eq hname.part, List.mem_append, not_or] at hclean
    exact hclean.2

/-- With plain names, the config is written after the manifest if its path is short enough and leads to
no directory, but to where one can write all of it in a directory that is there. -/
theorem writeOutput_config_of_run {c : Context} {fault : Fault} (hrun : run t c = .ok g)
    (hplain : c.options.PlainNames) (hlong : Text.byteLength (c.output .config) ≤ pathLimit)
    (hdirectory : t'.isDirectory (c.output .config) = false)
    (hplace : ∀ l, t'.resolve (c.output .config) = .ok l →
      t'.entry? l.tail = some .directory ∧
        t'.taken l g.config.content.utf8 = .ok (g.config.content.utf8, none))
    {between : FileTree} (hfirst : writeOutput t g.manifest = (between, none)) :
    writeOutput between g.config ≠ (t', some fault) := by
  intro hsecond
  obtain ⟨hmpath, hcpath⟩ := path_of_run hrun
  obtain ⟨hshort, hnul⟩ := name_of_run hrun hplain .config
  rw [← hcpath] at hdirectory hplace
  obtain ⟨hmade, l, hl⟩ := resolve_sibling (hplain.isName hrun .manifest) (hplain.isName hrun .config)
    hshort hnul hlong hmpath hcpath hfirst
  rw [writeOutput_of_directories hmade] at hsecond
  obtain ⟨hafter, hfault⟩ := Prod.mk.inj hsecond
  obtain ⟨f, hf, -⟩ := Option.map_eq_some_iff.mp hfault
  rcases write_failed [] (Prod.ext hafter hf) with rfl | ⟨k, -, hbroken⟩
  · -- the place is as it was when it was written to
    obtain ⟨hparent, htaken⟩ := hplace l hl
    have hentry : t'.entry? l ≠ some .directory := by
      intro hentry
      rw [isDirectory_eq_true_iff.mpr (stat_eq_ok_iff.mpr ⟨l, hl, hentry⟩)] at hdirectory
      cases hdirectory
    have hdone := writeAt_of_taken htaken hparent hentry
    simp only [FileTree.write, hl, hdone] at hf
    cases hf
  · exact hbroken.not_taken (hplace k hbroken.resolve).2

/-- What a failed writing leaves of the files. They are all as they were; or the manifest was broken off, or
has been written, and is the only one that is not; or the config was broken off behind it. With plain
names, where the places that both paths lead to take all that is written there, the files are as they were
unless the path of the config is too long, leads to a directory, or leads by a link to where no directory
is. -/
theorem files_of_failed_write {c : Context} {fault : Fault} (hrun : run t c = .ok g)
    (hwrite : g.write t = (t', some fault)) :
    Remains t t' g ∧
    (c.options.PlainNames →
      (∀ o ∈ g.outputs, ∀ l, t'.resolve o.path = .ok l →
        t'.taken l o.content.utf8 = .ok (o.content.utf8, none)) →
      Text.byteLength (c.output .config) ≤ pathLimit → t'.isDirectory (c.output .config) = false →
      (∀ l, t'.resolve (c.output .config) = .ok l → t'.entry? l.tail = some .directory) →
      SameFiles t t') := by
  refine ⟨remains_of_failed_write hwrite, fun hplain htaken hlong hdirectory hparent => ?_⟩
  obtain ⟨hmanifest, hconfig, -⟩ : _ ∧ _ ∧ _ := by
    simpa only [outputs, List.forall_mem_cons] using htaken
  rcases failed_write_cases hwrite with hfirst | ⟨between, hfirst, hsecond⟩
  · rcases failed_output hfirst with halong | ⟨l, -, hbroken⟩
    · exact halong.grown.sameFilesBut
    · exact absurd (hmanifest l hbroken.resolve) hbroken.not_taken
  · rw [(path_of_run hrun).2] at hconfig
    exact absurd hsecond (writeOutput_config_of_run hrun hplain hlong hdirectory
      (fun l hl => ⟨hparent l hl, hconfig l hl⟩) hfirst)

/-- Three bytes of the manifest find room, and nothing of the config. -/
example :
    let start := { sampleTree with hindrance := fun _ => some (.limit 3 .storageFull) }
    let after := (sample.write start).1
    (sample.write start).2 = some (.file .storageFull) ∧
      after.entry? [encoded "xmonad.cabal", encoded "out"] =
        some (.file (sample.manifest.content.utf8.take 3)) ∧
      after.entry? [encoded "Config.hs", encoded "out"] = none := by
  decide +kernel

/-! The sample run, with a directory where one of its outputs is to be written. -/

def blockedTree (target : Target) : FileTree :=
  let out := [encoded "out"]
  .listed []
    (sampleTree.entries ++
      [(out, .directory), ((sampleContext.options.fileName target).utf8 :: out, .directory)])
    (List.mem_append_left _ sampleTree.root_mem) (by cases target <;> decide +kernel)
    (by cases target <;> decide +kernel) (by cases target <;> decide +kernel)

theorem run_blocked (target : Target) : run (blockedTree target) sampleContext = .ok sample := by
  have hscan : sampleContext.scan (blockedTree target) =
      .ok (⟨["ext/B.hs".toList, "ext/A.hs".toList], some "ext/Z.hs".toList⟩, sampleScans) := by
    have hlisting : Listing.ofDirectory (blockedTree target) "ext".toList sampleContext.options =
        .ok ⟨["ext/B.hs".toList, "ext/A.hs".toList], some "ext/Z.hs".toList⟩ := by
      cases target <;> exact Listing.ofDirectory_of_pairwise rfl
        ["A.hs".toList, "B.hs".toList, "Z.hs".toList] (by decide +kernel) (by decide +kernel)
    refine bind_eq_ok.mpr ⟨_, hlisting, ?_⟩
    cases target <;> rfl
  have hmanifest : sampleContext.readTemplate (blockedTree target) .manifest =
      .ok sample.manifest.template := by
    cases target <;> rfl
  have hconfig : sampleContext.readTemplate (blockedTree target) .config =
      .ok sample.config.template := by
    cases target <;> rfl
  exact run_of_splice hmanifest hconfig hscan (Prod.ext rfl rfl) (by decide +kernel)
    (by decide +kernel)

theorem write_blocked (target : Target) :
    sample.write (blockedTree target) =
      ((sample.write (blockedTree target)).1, some (.file .isADirectory)) :=
  Prod.ext rfl (by cases target <;> decide +kernel)

theorem files_kept_at_blocked_manifest :
    run (blockedTree .manifest) sampleContext = .ok sample ∧
      (sample.write (blockedTree .manifest)).2 = some (.file .isADirectory) ∧
      SameFiles (blockedTree .manifest) (sample.write (blockedTree .manifest)).1 := by
  have hplain : sampleContext.options.PlainNames := by
    intro target
    cases target <;> decide
  have hwrite := write_blocked .manifest
  generalize hafter : (sample.write (blockedTree .manifest)).1 = after at hwrite ⊢
  have hmanifest : after.resolve sample.manifest.path = .ok [encoded "xmonad.cabal", encoded "out"] := by
    subst hafter; decide +kernel
  have hconfig : after.resolve sample.config.path = .ok [encoded "Config.hs", encoded "out"] := by
    subst hafter; decide +kernel
  have htaken : ∀ o ∈ sample.outputs, ∀ l, after.resolve o.path = .ok l →
      after.taken l o.content.utf8 = .ok (o.content.utf8, none) := by
    intro o ho l hl
    rcases List.mem_pair.mp ho with rfl | rfl
    · obtain rfl := Except.ok.inj (hmanifest.symm.trans hl)
      subst hafter; decide +kernel
    · obtain rfl := Except.ok.inj (hconfig.symm.trans hl)
      subst hafter; decide +kernel
  have hparent : ∀ l, after.resolve (sampleContext.output .config) = .ok l →
      after.entry? l.tail = some .directory := by
    intro l hl
    obtain rfl := Except.ok.inj (hconfig.symm.trans hl)
    subst hafter; decide +kernel
  obtain ⟨-, hkept⟩ := files_of_failed_write (run_blocked .manifest) hwrite
  refine ⟨run_blocked .manifest, congrArg Prod.snd hwrite, ?_⟩
  exact hkept hplain htaken (by decide) (by subst hafter; decide +kernel) hparent

/-- The manifest is written before the config is found to be a directory, and it stays. -/
theorem manifest_written_at_blocked_config :
    let start := blockedTree .config
    let after := (sample.write start).1
    Workspace.ofDirectories start "main".toList "ext".toList (some "out".toList) =
        .ok sampleContext.workspace ∧
      run start sampleContext = .ok sample ∧
      (sample.write start).2 = some (.file .isADirectory) ∧
      start.entry? [encoded "xmonad.cabal", encoded "out"] = none ∧
      after.entry? [encoded "xmonad.cabal", encoded "out"] =
        some (.file sample.manifest.content.utf8) ∧
      ¬ SameFiles start after := by
  intro start after
  have hbefore : start.entry? [encoded "xmonad.cabal", encoded "out"] = none := by
    decide +kernel
  have hafter : after.entry? [encoded "xmonad.cabal", encoded "out"] =
      some (.file sample.manifest.content.utf8) := by
    decide +kernel
  refine ⟨rfl, run_blocked .config, congrArg Prod.snd (write_blocked .config), hbefore, hafter,
    fun hsame => ?_⟩
  rw [hsame _ List.not_mem_nil, hbefore] at hafter
  cases hafter

end Generation
end TemplateSplice
