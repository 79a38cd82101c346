import TemplateSplice.Proofs.Effects

/-! What becomes of the files that a generation is made from. Nothing keeps an output path from leading
to one of them, by its parts or by a link, and then it is written over; every other one keeps its bytes.
Where the outputs have plain names and no link leads to them, they are written into one directory, and
little can be hit in it: no extension file, since the names of the outputs are not listed, and a template
only in the directory of the templates itself. -/

namespace TemplateSplice

open FileTree

variable {t t' : FileTree} {c : Context} {g : Generation}

theorem Generation.template_of_run (hrun : run t c = .ok g) (target : Target) :
    ∃ template, c.readTemplate t target = .ok template := by
  obtain ⟨-, -, -, hmanifest, hconfig, -⟩ := run_eq_ok hrun
  cases target with
  | manifest => exact ⟨_, hmanifest⟩
  | config => exact ⟨_, hconfig⟩

/-- The outputs are named by single parts of paths. -/
def Options.PlainNames (o : Options) : Prop :=
  ∀ target, '/' ∉ o.fileName target

theorem Options.PlainNames.isName (h : c.options.PlainNames) (hrun : Generation.run t c = .ok g)
    (target : Target) : Path.IsName (c.options.fileName target) := by
  obtain ⟨template, htemplate⟩ := Generation.template_of_run hrun target
  exact Context.isName_of_readTemplate htemplate (h target)

/-- The files that a run in a context is made from: its templates, the extension files of its directory,
the entry point among them, and the settings. -/
inductive Context.Reads (t : FileTree) (c : Context) : Location → Prop
  | template {l : Location} (target : Target) (hl : t.resolve (c.template target) = .ok l) : Reads t c l
  | extension {l : Location} {name : Text} (hl : t.resolve c.workspace.contrib = .ok l)
      (hname : Listing.Qualifies t c.workspace.contrib c.options name) :
      Reads t c (t.follow (name.utf8 :: l))
  | settings {p : Path} {l : Location} (hp : Settings.path? t c.workspace.contrib = some p)
      (hl : t.resolve p = .ok l) : Reads t c l

theorem Context.Reads.file {l : Location} (h : c.Reads t l) (hrun : Generation.run t c = .ok g) :
    ∃ content, t.entry? l = some (.file content) := by
  cases h with
  | template target hl =>
    obtain ⟨template, htemplate⟩ := Generation.template_of_run hrun target
    exact entry?_of_isFile (isFile_eq_true_iff.mpr (Context.readTemplate_eq_ok htemplate)) hl
  | extension hl hname =>
    obtain ⟨k, content, hk, hentry⟩ := hname.file
    obtain rfl := Except.ok.inj (hl.symm.trans hk)
    exact ⟨content, hentry⟩
  | settings hp hl => exact entry?_of_isFile (List.find?_some hp) hl

/-- The settings file has one of two names, in whatever directory it is. -/
theorem Settings.path?_eq_some {dir p : Path} (h : path? t dir = some p) :
    ∃ base name, p = Path.join base name ∧
      name ∈ ["tagsplice.toml".toList, ".tagsplice.toml".toList] := by
  obtain ⟨candidate, hcandidate, rfl⟩ := List.mem_map.mp (List.mem_of_find?_eq_some h)
  have hhidden : dir.join ".config/tagsplice.toml".toList =
      (dir.join ".config".toList).join "tagsplice.toml".toList := by
    unfold Path.join
    split_ifs <;> simp_all [Path.isAbsolute]
  simp only [candidates, List.mem_cons, List.not_mem_nil, or_false] at hcandidate
  rcases hcandidate with rfl | rfl | rfl
  · exact ⟨dir, _, rfl, by simp⟩
  · exact ⟨dir, _, rfl, by simp⟩
  · exact ⟨_, _, hhidden, by simp⟩

namespace Generation

structure InputsKept (t t' : FileTree) (c : Context) (g : Generation) : Prop where
  /-- What is not kept was written over. -/
  kept : ∀ l, c.Reads t l → t'.entry? l = t.entry? l ∨
    ∃ o ∈ g.outputs, t'.resolve o.path = .ok l ∧ t'.entry? l = some (.file o.content.utf8)
  template : c.options.PlainNames → LinksApart t' g → ∀ target l,
    t.resolve (c.template target) = .ok l →
      t'.entry? l = t.entry? l ∨ t'.SameDirectory c.workspace.main c.workspace.output
  extension : c.options.PlainNames → LinksApart t' g → ∀ name l,
    t.resolve c.workspace.contrib = .ok l →
      Listing.Qualifies t c.workspace.contrib c.options name →
        t'.entry? (t.follow (name.utf8 :: l)) = t.entry? (t.follow (name.utf8 :: l))
  settings : c.options.PlainNames → LinksApart t' g → ∀ p l,
    Settings.path? t c.workspace.contrib = some p → t.resolve p = .ok l →
      t'.entry? l = t.entry? l ∨
        ∃ target, c.options.fileName target ∈ ["tagsplice.toml".toList, ".tagsplice.toml".toList]

theorem InputsKept.refl (t : FileTree) (c : Context) (g : Generation) : InputsKept t t c g :=
  ⟨fun _ _ => Or.inl rfl, fun _ _ _ _ _ => Or.inl rfl, fun _ _ _ _ _ _ => rfl,
    fun _ _ _ _ _ _ => Or.inl rfl⟩

theorem place_of_output (hrun : run t c = .ok g) (hplain : c.options.PlainNames)
    (hlinks : LinksApart t' g) {o : Output} (ho : o ∈ g.outputs) {l : Location}
    (hl : t'.resolve o.path = .ok l) :
    t'.Unlinked l ∧ ∃ target out, t'.resolve (c.workspace.output.join ['.']) = .ok out ∧
      l = (c.options.fileName target).utf8 :: out := by
  have hfree : t'.Unlinked l := hlinks o ho l hl
  obtain ⟨target, hpath⟩ : ∃ target, o.path = c.output target := by
    have hmem := List.mem_map_of_mem (f := Output.path) ho
    rw [paths_of_run hrun] at hmem
    rcases List.mem_pair.mp hmem with hpath | hpath
    · exact ⟨_, hpath⟩
    · exact ⟨_, hpath⟩
  rw [hpath] at hl
  obtain ⟨out, hout, hplace⟩ := resolve_join (hplain.isName hrun target) hl
  exact ⟨hfree, target, out, hout, (hfree.eq_of_follow hplace.symm).symm⟩

theorem kept_or_output (hrun : run t c = .ok g) (hwrite : g.write t = (t', none)) {l : Location}
    (hl : c.Reads t l) : t'.entry? l = t.entry? l ∨
      ∃ o ∈ g.outputs, t'.resolve o.path = .ok l ∧ t'.entry? l = some (.file o.content.utf8) := by
  obtain ⟨content, hfile⟩ := hl.file hrun
  exact (written_of_write hwrite).file hfile

/-- Where the outputs have plain names and no link leads to them, what is found in some place is kept, or
that place has the name of an output and lies where these do. -/
theorem kept_or_place (hrun : run t c = .ok g) (hwrite : g.write t = (t', none))
    (hplain : c.options.PlainNames) (hlinks : LinksApart t' g) {l : Location}
    (hl : c.Reads t (t.follow l)) : t'.entry? (t.follow l) = t.entry? (t.follow l) ∨
      ∃ target out, t'.resolve (c.workspace.output.join ['.']) = .ok out ∧
        l = (c.options.fileName target).utf8 :: out := by
  obtain ⟨_, _, halong, -⟩ := settled_of_write hwrite
  refine (kept_or_output hrun hwrite hl).imp_right ?_
  rintro ⟨o, ho, hresolve, -⟩
  obtain ⟨hfree, target, out, hout, hplace⟩ := place_of_output hrun hplain hlinks ho hresolve
  -- an output is reached by its own name only
  have hsame : l = t.follow l := (halong.grown.unlinked_iff.mp hfree).eq_of_follow rfl
  exact ⟨target, out, hout, hsame.trans hplace⟩

theorem inputsKept_of_write (hrun : run t c = .ok g) (hwrite : g.write t = (t', none)) :
    InputsKept t t' c g := by
  obtain ⟨_, _, halong, -⟩ := settled_of_write hwrite
  refine ⟨fun l hl => kept_or_output hrun hwrite hl, ?_, ?_, ?_⟩
  · intro hplain hlinks target l hl
    obtain ⟨main, hmain, rfl⟩ := resolve_join (hplain.isName hrun target) hl
    refine (kept_or_place hrun hwrite hplain hlinks (.template target hl)).imp_right ?_
    rintro ⟨target', out, hout, heq⟩
    -- the template lies in the directory of the templates and in that of the outputs
    obtain rfl : main = out := (List.cons.inj heq).2
    exact ⟨main, halong.grown.resolve hmain, hout⟩
  · intro hplain hlinks name l hl hname
    refine (kept_or_place hrun hwrite hplain hlinks (.extension hl hname)).resolve_right ?_
    rintro ⟨target, out, -, heq⟩
    -- the names of the outputs are not listed
    obtain rfl := Text.utf8_injective (List.cons.inj heq).1
    cases target with
    | manifest => exact hname.manifest rfl
    | config => exact hname.config rfl
  · intro hplain hlinks p l hp hl
    obtain ⟨base, name, rfl, hname⟩ := Settings.path?_eq_some hp
    have hisName : Path.IsName name := by
      rcases List.mem_pair.mp hname with rfl | rfl
      · exact ⟨by decide, by decide⟩
      · exact ⟨by decide, by decide⟩
    obtain ⟨dir, -, rfl⟩ := resolve_join hisName hl
    refine (kept_or_place hrun hwrite hplain hlinks (.settings hp hl)).imp_right ?_
    rintro ⟨target, out, -, heq⟩
    exact ⟨target, Text.utf8_injective (List.cons.inj heq).1 ▸ hname⟩

end Generation

/-- Generation and what it is made from. A generate command that succeeds keeps the bytes of every file
that it was made from, unless the path of one of its outputs leads to that file, which then holds this
output. Where neither output is named by a path of several parts and no link leads to an output, no
extension file is written over, no template unless the outputs are written into the directory of the
templates, and no settings unless an output has the name of a settings file. -/
theorem inputs_of_generate {order : TableOrder} {t : FileTree} {args : List Text} {i : Inputs}
    {dryRun showDiff noColor : Bool}
    (hargs : Arguments.parse? args = some (.perform (.generate i dryRun showDiff) noColor))
    (color : Bool) (hexit : (runArguments order t color args).2.exit = 0) :
    ∃ c g, i.context order t = .ok c ∧ Generation.run t c = .ok g ∧
      Generation.InputsKept t (runArguments order t color args).1 c g := by
  rw [runArguments_of_parse hargs, Command.run] at hexit ⊢
  obtain ⟨c, g, hc, hg, hwrite⟩ := Inputs.written_of_generate hexit
  refine ⟨c, g, hc, hg, ?_⟩
  cases dryRun with
  | true =>
    rw [Inputs.generate_dryRun]
    exact .refl t c g
  | false => exact Generation.inputsKept_of_write hg (hwrite rfl)

namespace Generation

/-- By the name of the config a link leads to an extension file, which is written over. -/
example :
    let out := [encoded "out"]
    let start : FileTree := .listed []
      (sampleTree.entries ++
        [(out, .directory), (encoded "Config.hs" :: out, .link [encoded "A.hs", encoded "ext"])])
      (List.mem_append_left _ sampleTree.root_mem) (by decide +kernel) (by decide +kernel)
      (by decide +kernel)
    let after := (sample.write start).1
    (sample.write start).2 = none ∧
      after.entry? [encoded "A.hs", encoded "ext"] = some (.file sample.config.content.utf8) := by
  decide +kernel

theorem inputs_of_sample_command :
    let after := (runArguments .asWritten sampleTree false sampleArguments).1
    InputsKept sampleTree after sampleContext sample ∧ LinksApart after sample ∧
      after.entry? [encoded "A.hs", encoded "ext"] =
        some (.file (encoded "-- %def a = 1\n-- %def b = 2\n")) := by
  intro after
  have hexit : (runArguments .asWritten sampleTree false sampleArguments).2.exit = 0 := by
    rw [run_sample_command]
    rfl
  obtain ⟨c, g, hcontext, hrun, hkept⟩ := inputs_of_generate parse_sampleArguments false hexit
  obtain rfl : sampleContext = c := Except.ok.inj hcontext
  obtain rfl : sample = g := Except.ok.inj (run_sample.symm.trans hrun)
  have hplain : sampleContext.options.PlainNames := by
    intro target
    cases target <;> decide
  have hlinks : LinksApart after sample := by
    intro _ _ l _
    simp only [after, run_sample_command]
    exact unlinked_of_no_link (by decide +kernel) l
  have hqualifies : Listing.Qualifies sampleTree "ext".toList sampleContext.options "A.hs".toList :=
    ⟨⟨[encoded "ext"], _, rfl, rfl⟩, by decide, by decide, by decide, by decide +kernel⟩
  exact ⟨hkept, hlinks, (hkept.extension hplain hlinks _ _ rfl hqualifies).trans rfl⟩

/-! Settings by which the manifest has the name of their own file, and the config leads to an extension
file, which is its own template. The outputs are written in between the extensions. -/

def recklessSettings : Text :=
  "[targets]\nmanifest = \"tagsplice.toml\"\nconfig = \"../ext/A.hs\"\n".toList

def recklessTree : FileTree :=
  let main := [encoded "main"]
  let ext := [encoded "ext"]
  .listed []
    [([], .directory), (main, .directory), (ext, .directory),
      (encoded "tagsplice.toml" :: main, .file (encoded "m\n")),
      (encoded "tagsplice.toml" :: ext, .file recklessSettings.utf8),
      (encoded "A.hs" :: ext, .file (encoded "-- % Extension-provided definitions\n-- %def a = 1\n")),
      (encoded "Z.hs" :: ext, .file [])]
    (by decide) (by decide +kernel) (by decide +kernel)

def recklessInputs : Inputs :=
  ⟨"main".toList, "ext".toList, none, none⟩

def recklessContext : Context where
  workspace := ⟨"main".toList, "ext".toList, "ext".toList⟩
  options := { manifest := "tagsplice.toml".toList, config := "../ext/A.hs".toList }
  catalog := .builtin

def reckless : Generation where
  manifest := ⟨.manifest, "ext/tagsplice.toml".toList, "m\n".toList, "m\n".toList⟩
  config := ⟨.config, "ext/../ext/A.hs".toList,
    "-- % Extension-provided definitions\n-- %def a = 1\n".toList,
    "-- % Extension-provided definitions\n--   For extension A:\n-- a = 1\n-- %def a = 1\n".toList⟩
  contributions := [⟨"A".toList, .definition, 1⟩]

theorem context_reckless : recklessInputs.context .asWritten recklessTree = .ok recklessContext := by
  have hpath : Settings.path? recklessTree "ext".toList = some "ext/tagsplice.toml".toList := by
    decide +kernel
  have hread : recklessTree.readText "ext/tagsplice.toml".toList = .ok recklessSettings := by
    decide +kernel
  have hsettings : (Toml.read? recklessSettings >>= Settings.ofTable?) =
      some { manifest := some "tagsplice.toml".toList, config := some "../ext/A.hs".toList } := by
    decide +kernel
  refine bind_eq_ok.mpr ⟨recklessContext.workspace, rfl, ?_⟩
  exact bind_eq_ok.mpr ⟨_, Settings.load_of_text hpath hread hsettings, rfl⟩

theorem run_reckless : run recklessTree recklessContext = .ok reckless := by
  have hlisting : Listing.ofDirectory recklessTree "ext".toList recklessContext.options =
      .ok ⟨["ext/A.hs".toList], some "ext/Z.hs".toList⟩ :=
    Listing.ofDirectory_of_pairwise rfl ["A.hs".toList, "Z.hs".toList] (by decide +kernel)
      (by decide +kernel)
  have hscan : recklessContext.scan recklessTree =
      .ok (⟨["ext/A.hs".toList], some "ext/Z.hs".toList⟩,
        [⟨"ext/A.hs".toList, [(.definition, ["a = 1".toList])]⟩]) :=
    bind_eq_ok.mpr ⟨_, hlisting, rfl⟩
  exact run_of_splice rfl rfl hscan (Prod.ext rfl rfl) (by decide +kernel) (by decide +kernel)

def recklessArguments : List Text :=
  ["generate".toList, "-mmain".toList, "-cext".toList]

theorem run_reckless_command : runArguments .asWritten recklessTree false recklessArguments =
    ((reckless.write recklessTree).1, .written "ext".toList reckless) := by
  have hargs : Arguments.parse? recklessArguments =
      some (.perform (.generate recklessInputs false false) false) := by
    decide +kernel
  have hwrite : (reckless.write recklessTree).2 = none := by decide +kernel
  exact runArguments_of_write hargs context_reckless run_reckless (Prod.ext rfl hwrite) false

/-- The command succeeds, and a template, an extension file and the settings are written over. -/
theorem inputs_written_over :
    let after := (runArguments .asWritten recklessTree false recklessArguments).1
    (runArguments .asWritten recklessTree false recklessArguments).2.exit = 0 ∧
      recklessInputs.context .asWritten recklessTree = .ok recklessContext ∧
      run recklessTree recklessContext = .ok reckless ∧
      (∃ l, recklessTree.resolve (recklessContext.template .config) = .ok l ∧
        after.entry? l ≠ recklessTree.entry? l) ∧
      (∃ l, recklessTree.resolve "ext".toList = .ok l ∧
        Listing.Qualifies recklessTree "ext".toList recklessContext.options "A.hs".toList ∧
        after.entry? (encoded "A.hs" :: l) ≠ recklessTree.entry? (encoded "A.hs" :: l)) ∧
      (∃ p l, Settings.path? recklessTree "ext".toList = some p ∧ recklessTree.resolve p = .ok l ∧
        after.entry? l ≠ recklessTree.entry? l) := by
  rw [run_reckless_command]
  have hqualifies : Listing.Qualifies recklessTree "ext".toList recklessContext.options "A.hs".toList :=
    ⟨⟨[encoded "ext"], encoded "-- % Extension-provided definitions\n-- %def a = 1\n",
      by decide +kernel, by decide +kernel⟩, by decide, by decide, by decide, by decide +kernel⟩
  refine ⟨rfl, context_reckless, run_reckless, ⟨[encoded "A.hs", encoded "ext"], ?_, ?_⟩,
    ⟨[encoded "ext"], ?_, hqualifies, ?_⟩,
    ⟨"ext/tagsplice.toml".toList, [encoded "tagsplice.toml", encoded "ext"], ?_, ?_, ?_⟩⟩
  all_goals decide +kernel

end Generation
end TemplateSplice
