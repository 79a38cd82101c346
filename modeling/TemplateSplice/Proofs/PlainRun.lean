import TemplateSplice.Command.Run
import TemplateSplice.Proofs.Difference
import TemplateSplice.Proofs.Generated
import TemplateSplice.Proofs.LineEndings
import TemplateSplice.Proofs.Reread

/-! A run that finds no payloads. Nothing is spliced, so each output is its template, read into lines and
written out again: the same text, but for the carriage returns of its line endings, which lines do not
hold. An output differs from its template, and a dry run shows a difference, exactly where a template has
such endings. -/

namespace TemplateSplice

variable {t : FileTree} {c : Context}

theorem FileTree.extract_eq_ok {p : Path} {tag : Tag} {comment : Text} {found : List Text}
    (h : t.extract p tag comment = .ok found) :
    ∃ content, t.readExtension p = .ok content ∧ Payload.extract tag.token comment content = found := by
  obtain ⟨content, hcontent, h⟩ := bind_eq_ok.mp h
  exact ⟨content, hcontent, Except.ok.inj h⟩

theorem Scan.ofFile_of_plain {catalog : Catalog} {comment : Text} {p : Path}
    (h : ∀ tag, t.extract p tag comment = .ok []) : ofFile t catalog comment p = .ok ⟨p, []⟩ := by
  obtain ⟨content, hcontent, -⟩ := FileTree.extract_eq_ok (h .definition)
  have hnone : ∀ tag ∈ Tag.all, ¬ (Payload.extract tag.token comment content ≠ []) := by
    intro tag _
    obtain ⟨content', hcontent', hfound⟩ := FileTree.extract_eq_ok (h tag)
    obtain rfl := Except.ok.inj (hcontent.symm.trans hcontent')
    exact not_not.mpr hfound
  have hpayloads : (ofContent p comment content).payloads = [] := by
    rw [payloads_ofContent, List.filter_eq_nil_iff.mpr (by simpa using hnone), List.map_nil]
  refine bind_eq_ok.mpr ⟨content, hcontent, congrArg Except.ok ?_⟩
  rw [Catalog.scan_eq, ← hpayloads]
  rfl

theorem Scan.mapM_ofFile_of_plain {catalog : Catalog} {comment : Text} {files : List Path}
    (h : ∀ p ∈ files, ∀ tag, t.extract p tag comment = .ok []) :
    files.mapM (ofFile t catalog comment) = .ok (files.map (⟨·, []⟩)) :=
  (mapM_congr fun p hp => ofFile_of_plain (h p hp)).trans List.mapM_pure

theorem Drafts.splice_plain (ds : Drafts) (catalog : Catalog) (mode : Mode) (comment : Text)
    (files : List Path) : ds.splice catalog mode comment (files.map (⟨·, []⟩)) = (ds, .ok []) := by
  have hblocks : (files.map fun file => (⟨file, []⟩ : Scan)).flatMap Scan.blocks = [] := by
    rw [List.flatMap_eq_nil_iff]
    intro scan hscan
    obtain ⟨file, -, rfl⟩ := List.mem_map.mp hscan
    rfl
  rw [splice, hblocks]
  rfl

theorem Context.readTemplate_of_stat {target : Target} {template : Text}
    (h : t.stat (c.template target) = .ok (.file template.utf8)) :
    c.readTemplate t target = .ok template := by
  have hfile : t.isFile (c.template target) = true := FileTree.isFile_eq_true_iff.mpr ⟨_, h⟩
  simp only [readTemplate, hfile, not_true_eq_false, if_false, FileTree.readText_of_stat h]

theorem Inputs.generate_preview {i : Inputs} {order : TableOrder} {g : Generation}
    (hc : i.context order t = .ok c) (hg : Generation.run t c = .ok g) (color showDiff : Bool) :
    i.generate order t color true showDiff = (t, .preview color showDiff c.workspace.output g) := by
  simp only [generate, hc, hg, if_true]

theorem Report.stderr_preview_eq_nil_iff {color : Bool} {root : Path} {g : Generation} :
    (preview color true root g).stderr = [] ↔ ∀ o ∈ g.outputs, o.template = o.content := by
  simp only [preview, if_true, List.flatMap_eq_nil_iff, difference_eq_nil_iff]

def Context.plainOutput (c : Context) (target : Target) (template : Text) : Output :=
  ⟨target, c.output target, template, template.dropReturns⟩

theorem Context.plainOutput_eq (c : Context) (target : Target) (template : Text) :
    c.plainOutput target template =
      ⟨target, c.output target, template, (Draft.ofTemplate (c.output target) template).render⟩ := by
  rw [plainOutput, Draft.render_ofTemplate]

namespace Generation

section
variable {manifest config : Text} {listing : Listing}

theorem run_of_plain
    (hmanifest : t.stat (c.template .manifest) = .ok (.file manifest.utf8))
    (hconfig : t.stat (c.template .config) = .ok (.file config.utf8))
    (hlisting : Listing.ofDirectory t c.workspace.contrib c.options = .ok listing)
    (hplain : ∀ p ∈ listing.processed, ∀ tag, t.extract p tag c.options.comment = .ok []) :
    run t c = .ok ⟨c.plainOutput .manifest manifest, c.plainOutput .config config, []⟩ := by
  have hscan : c.scan t = .ok (listing, listing.processed.map (⟨·, []⟩)) :=
    bind_eq_ok.mpr ⟨_, hlisting, bind_eq_ok.mpr ⟨_, Scan.mapM_ofFile_of_plain hplain, rfl⟩⟩
  exact run_of_splice (Context.readTemplate_of_stat hmanifest) (Context.readTemplate_of_stat hconfig)
    hscan (Drafts.splice_plain ..) (c.plainOutput_eq _ _) (c.plainOutput_eq _ _)

/-- Without a payload in any file that is processed, a run succeeds and every output is its template
without the carriage returns of its line endings. So an output is the same text as its template, and the
dry run shows no line of it, if its template has no such ending, and only then. -/
theorem reproduced_of_plain_run
    (hmanifest : t.stat (c.template .manifest) = .ok (.file manifest.utf8))
    (hconfig : t.stat (c.template .config) = .ok (.file config.utf8))
    (hlisting : Listing.ofDirectory t c.workspace.contrib c.options = .ok listing)
    (hplain : ∀ p ∈ listing.processed, ∀ tag, t.extract p tag c.options.comment = .ok []) :
    ∃ g, run t c = .ok g ∧ g.contributions = [] ∧
      g.manifest.template = manifest ∧ g.config.template = config ∧
      (∀ o ∈ g.outputs, o.content = o.template.dropReturns ∧
        (o.content = o.template ↔ ¬ ['\r', '\n'] <:+: o.template)) ∧
      ∀ (i : Inputs) (order : TableOrder) (color : Bool), i.context order t = .ok c →
        (i.generate order t color true true).2.exit = 0 ∧
          ((i.generate order t color true true).2.stderr = [] ↔
            ∀ o ∈ g.outputs, ¬ ['\r', '\n'] <:+: o.template) := by
  have hrun := run_of_plain hmanifest hconfig hlisting hplain
  have hcontent : ∀ o ∈ [c.plainOutput .manifest manifest, c.plainOutput .config config],
      o.content = o.template.dropReturns := by
    simp [Context.plainOutput]
  have hsame : ∀ o ∈ [c.plainOutput .manifest manifest, c.plainOutput .config config],
      (o.content = o.template ↔ ¬ ['\r', '\n'] <:+: o.template) := by
    intro o ho
    rw [hcontent o ho, Text.dropReturns_eq_self_iff]
  refine ⟨_, hrun, rfl, rfl, rfl, fun o ho => ⟨hcontent o ho, hsame o ho⟩,
    fun i order color hi => ?_⟩
  rw [Inputs.generate_preview hi hrun]
  refine ⟨rfl, Report.stderr_preview_eq_nil_iff.trans (forall₂_congr fun o ho => ?_)⟩
  rw [← hsame o ho, eq_comm]

end

/-! A manifest template with the line ending of another system, and an extension without payloads; those
of the entry point are not looked at. -/

def returnsTree : FileTree :=
  let main := [encoded "main"]
  let ext := [encoded "ext"]
  .listed []
    [([], .directory), (main, .directory), (ext, .directory),
      (encoded "xmonad.cabal" :: main, .file (encoded "name: x\r\n")),
      (encoded "Config.hs" :: main, .file (encoded "main = x\n")),
      (encoded "A.hs" :: ext, .file (encoded "-- %define x\n")),
      (encoded "Z.hs" :: ext, .file (encoded "-- %def d = 4\n"))]
    (by decide) (by decide +kernel) (by decide +kernel)

def returnsInputs : Inputs :=
  ⟨"main".toList, "ext".toList, some "out".toList, none⟩

def returns : Generation where
  manifest := ⟨.manifest, "out/xmonad.cabal".toList, "name: x\r\n".toList, "name: x\n".toList⟩
  config := ⟨.config, "out/Config.hs".toList, "main = x\n".toList, "main = x\n".toList⟩
  contributions := []

theorem listing_returns : Listing.ofDirectory returnsTree "ext".toList sampleContext.options =
    .ok ⟨["ext/A.hs".toList], some "ext/Z.hs".toList⟩ :=
  Listing.ofDirectory_of_pairwise rfl ["A.hs".toList, "Z.hs".toList] (by decide +kernel)
    (by decide +kernel)

theorem extract_returns (tag : Tag) :
    returnsTree.extract "ext/A.hs".toList tag sampleContext.options.comment = .ok [] := by
  cases tag <;> decide +kernel

/-- No file that is processed has a payload, and yet an output is not its template. -/
theorem returns_lost_without_payloads :
    returnsTree.stat (sampleContext.template .manifest) = .ok (.file (encoded "name: x\r\n")) ∧
      returnsTree.stat (sampleContext.template .config) = .ok (.file (encoded "main = x\n")) ∧
      (∃ listing, Listing.ofDirectory returnsTree "ext".toList sampleContext.options = .ok listing ∧
        ∀ p ∈ listing.processed, ∀ tag,
          returnsTree.extract p tag sampleContext.options.comment = .ok []) ∧
      run returnsTree sampleContext = .ok returns ∧ returns.contributions = [] ∧
      returns.manifest.content ≠ returns.manifest.template := by
  have hscan : sampleContext.scan returnsTree =
      .ok (⟨["ext/A.hs".toList], some "ext/Z.hs".toList⟩, [⟨"ext/A.hs".toList, []⟩]) :=
    bind_eq_ok.mpr ⟨_, listing_returns, rfl⟩
  have hrun : run returnsTree sampleContext = .ok returns :=
    run_of_splice rfl rfl hscan (Prod.ext rfl rfl) (by decide +kernel) (by decide +kernel)
  refine ⟨rfl, rfl, ⟨_, listing_returns, fun p hp tag => ?_⟩, hrun, rfl, by decide⟩
  obtain rfl := List.mem_singleton.mp hp
  exact extract_returns tag

theorem context_returns : returnsInputs.context .asWritten returnsTree = .ok sampleContext := by
  have hpath : Settings.path? returnsTree "ext".toList = none := by decide +kernel
  have hload : Settings.load returnsTree "ext".toList = .ok {} := by
    unfold Settings.load
    rw [hpath]
  exact bind_eq_ok.mpr ⟨sampleContext.workspace, rfl, bind_eq_ok.mpr ⟨_, hload, rfl⟩⟩

theorem reproduced_with_returns_dropped :
    (∃ g, run returnsTree sampleContext = .ok g ∧ g.contributions = [] ∧
      g.manifest.content = "name: x\n".toList ∧ g.config.content = g.config.template) ∧
    (returnsInputs.generate .asWritten returnsTree false true true).2.exit = 0 ∧
    (returnsInputs.generate .asWritten returnsTree false true true).2.stderr ≠ [] := by
  have hfirstFile : returnsTree.stat (sampleContext.template .manifest) =
      .ok (.file (encoded "name: x\r\n")) := rfl
  have hsecondFile : returnsTree.stat (sampleContext.template .config) =
      .ok (.file (encoded "main = x\n")) := rfl
  obtain ⟨g, hrun, hnone, hmanifest, hconfig, hcontent, hshown⟩ :=
    reproduced_of_plain_run hfirstFile hsecondFile listing_returns
      (List.forall_mem_singleton.mpr extract_returns)
  obtain ⟨hexit, hstderr⟩ := hshown returnsInputs .asWritten false context_returns
  have hmem : g.manifest ∈ g.outputs ∧ g.config ∈ g.outputs := by simp [outputs]
  have hfirst : g.manifest.content = "name: x\n".toList := by
    rw [(hcontent _ hmem.1).1, hmanifest]
    decide
  have hsecond : g.config.content = g.config.template := by
    rw [(hcontent _ hmem.2).2, hconfig]
    decide +kernel
  have hshows : (returnsInputs.generate .asWritten returnsTree false true true).2.stderr ≠ [] := by
    intro hnil
    have hplain := hstderr.mp hnil _ hmem.1
    rw [hmanifest] at hplain
    exact hplain (by decide +kernel)
  exact ⟨⟨g, hrun, hnone, hfirst, hsecond⟩, hexit, hshows⟩

end Generation
end TemplateSplice
