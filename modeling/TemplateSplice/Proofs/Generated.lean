import TemplateSplice.Generation
import TemplateSplice.Proofs.Listing
import TemplateSplice.Proofs.WovenRun

/-! The config that a generation comes to. Sources are spliced from the last to the first, the tags of
each in catalog order, and every block lands directly below its marker; read from top to bottom, what
stands below a marker is in the order of the file names, and inside one file in reverse catalog order. -/

namespace TemplateSplice

/-- What a source puts below a marker: a block for each rule that has the marker, last rule first. -/
def Source.below (c : Catalog) (mode : Mode) (comment marker : Text) (s : Source) : List Text :=
  (Tag.all.reverse.filter fun tag =>
      tag.placement = .afterMarker ∧ (c.rule tag).marker = marker ∧ s.payloads tag ≠ []).flatMap
    fun tag => (c.rule tag).blockLines mode comment s.file.stem (s.payloads tag)

section
variable {c : Catalog} {mode : Mode} {comment : Text}

theorem Catalog.below_blocks (s : Source) (marker : Text) :
    c.below mode comment s.blocks marker = s.below c mode comment marker := by
  rw [below, Source.blocks, List.filter_map, ← List.map_reverse, List.flatMap_map, List.filter_filter,
    ← List.filter_reverse, Source.below]
  refine congrArg (List.flatMap _) (List.filter_congr fun tag _ => ?_)
  simp only [Function.comp_apply, Bool.decide_and, Bool.and_assoc]

/-- Files that are spliced from the back stand in their order. -/
theorem Catalog.below_reverse (sources : List Source) (marker : Text) :
    c.below mode comment (sources.reverse.flatMap Source.blocks) marker =
      sources.flatMap (Source.below c mode comment marker) := by
  rw [below, List.filter_flatMap, List.reverse_flatMap, List.reverse_reverse, List.flatMap_assoc]
  apply List.flatMap_congr
  intro s hs
  exact below_blocks s marker

end

namespace Generation

def start (g : Generation) (c : Context) : Drafts :=
  ⟨.ofTemplate (c.output .manifest) g.manifest.template,
    .ofTemplate (c.output .config) g.config.template⟩

theorem run_eq_ok {t : FileTree} {c : Context} {g : Generation} (h : run t c = .ok g) :
    ∃ listing scans, ∃ final : Drafts,
      c.readTemplate t .manifest = .ok g.manifest.template ∧
      c.readTemplate t .config = .ok g.config.template ∧
      c.scan t = .ok (listing, scans) ∧
      (g.start c).splice c.catalog c.options.mode c.options.comment scans =
        (final, .ok g.contributions) ∧
      g.manifest.content = final.manifest.render ∧ g.config.content = final.config.render := by
  obtain ⟨manifest, hmanifest, h⟩ := bind_eq_ok.mp h
  obtain ⟨config, hconfig, h⟩ := bind_eq_ok.mp h
  obtain ⟨⟨listing, scans⟩, hscan, h⟩ := bind_eq_ok.mp h
  obtain ⟨contributions, hsplice, h⟩ := bind_eq_ok.mp h
  cases h
  exact ⟨listing, scans, _, hmanifest, hconfig, hscan, Prod.ext rfl hsplice, rfl, rfl⟩

theorem run_of_splice {t : FileTree} {c : Context} {g : Generation} {listing : Listing}
    {scans : List Scan} {final : Drafts}
    (hmanifest : c.readTemplate t .manifest = .ok g.manifest.template)
    (hconfig : c.readTemplate t .config = .ok g.config.template)
    (hscan : c.scan t = .ok (listing, scans))
    (hsplice : (g.start c).splice c.catalog c.options.mode c.options.comment scans =
      (final, .ok g.contributions))
    (hfirst : g.manifest =
      ⟨.manifest, final.manifest.path, g.manifest.template, final.manifest.render⟩)
    (hsecond : g.config = ⟨.config, final.config.path, g.config.template, final.config.render⟩) :
    run t c = .ok g := by
  refine bind_eq_ok.mpr ⟨_, hmanifest, bind_eq_ok.mpr ⟨_, hconfig, bind_eq_ok.mpr ⟨_, hscan, ?_⟩⟩⟩
  refine bind_eq_ok.mpr ⟨g.contributions, congrArg Prod.snd hsplice, ?_⟩
  obtain rfl := congrArg Prod.fst hsplice
  exact congrArg Except.ok (congrArg₂ (mk · · g.contributions) hfirst hsecond).symm

theorem path_of_run {t : FileTree} {c : Context} {g : Generation} (h : run t c = .ok g) :
    g.manifest.path = c.output .manifest ∧ g.config.path = c.output .config := by
  obtain ⟨manifest, -, h⟩ := bind_eq_ok.mp h
  obtain ⟨config, -, h⟩ := bind_eq_ok.mp h
  obtain ⟨⟨listing, scans⟩, -, h⟩ := bind_eq_ok.mp h
  obtain ⟨contributions, -, h⟩ := bind_eq_ok.mp h
  cases h
  exact Drafts.path_splice ⟨.ofTemplate (c.output .manifest) manifest,
    .ofTemplate (c.output .config) config⟩ scans

theorem paths_of_run {t : FileTree} {c : Context} {g : Generation} (h : run t c = .ok g) :
    g.outputs.map (·.path) = [c.output .manifest, c.output .config] := by
  obtain ⟨hmanifest, hconfig⟩ := path_of_run h
  rw [outputs, List.map_cons, List.map_singleton, hmanifest, hconfig]

/-- The config of a generation. Whenever one comes about, it was gathered from the extension files of
its directory; and if no text that it inserts can be taken for the marker of another rule, the lines of
the config are those of its template, with what the sources put below a marker, in the order of their
names, directly under the first line that is this marker. -/
theorem config_of_run {t : FileTree} {c : Context} {g : Generation} (h : run t c = .ok g) :
    ∃ (names : List Text) (sources : List Source) (final : Drafts),
      Gathered t c names sources ∧
      (∃ listing, c.scan t = .ok (listing, sources.reverse.map Source.scan)) ∧
      c.readTemplate t .config = .ok g.config.template ∧
      (g.start c).splice c.catalog c.options.mode c.options.comment
        (sources.reverse.map Source.scan) = (final, .ok g.contributions) ∧
      g.config.content = final.config.render ∧
      (NoImitation c.catalog c.options.mode c.options.comment
          (sources.reverse.flatMap Source.blocks) →
        final.config.lines =
          weave (fun marker => sources.flatMap
            (Source.below c.catalog c.options.mode c.options.comment marker))
            g.config.template.lines) := by
  obtain ⟨listing, scans, final, -, htemplate, hscan, hsplice, -, hcontent⟩ := run_eq_ok h
  obtain ⟨names, sources, hgathered, rfl⟩ := Context.scan_eq_ok hscan
  refine ⟨names, sources, final, hgathered, ⟨listing, hscan⟩, htemplate, hsplice, hcontent, ?_⟩
  intro hq
  have hwoven : Woven c.catalog c.options.mode c.options.comment (g.start c) _ final :=
    Woven.of_splice rfl hq hsplice
  rw [hwoven.config, funext (Catalog.below_reverse sources)]
  rfl

/-! A run over two templates and three extension files, the last of which is the entry point. -/

def encoded (s : String) : Bytes :=
  Text.utf8 s.toList

def sampleTree : FileTree :=
  (((((((FileTree.empty [])
    |>.put (encoded "main") [] .directory (by decide) (by decide))
    |>.put (encoded "ext") [] .directory (by decide) (by decide))
    |>.put (encoded "xmonad.cabal") [encoded "main"] (.file (encoded "build-depends: base\n"))
      (by decide) (by decide))
    |>.put (encoded "Config.hs") [encoded "main"]
      (.file (encoded "-- % Extension-provided definitions\nmain = x\n")) (by decide) (by decide))
    |>.put (encoded "A.hs") [encoded "ext"] (.file (encoded "-- %def a = 1\n-- %def b = 2\n"))
      (by decide) (by decide))
    |>.put (encoded "B.hs") [encoded "ext"] (.file (encoded "-- %def c = 3\n")) (by decide) (by decide))
    |>.put (encoded "Z.hs") [encoded "ext"] (.file (encoded "-- %def d = 4\n")) (by decide) (by decide)

def sampleContext : Context where
  workspace := ⟨"main".toList, "ext".toList, "out".toList⟩
  options := {}
  catalog := .builtin

def sampleScans : List Scan :=
  [⟨"ext/B.hs".toList, [(.definition, ["c = 3".toList])]⟩,
    ⟨"ext/A.hs".toList, [(.definition, ["a = 1".toList, "b = 2".toList])]⟩]

def sample : Generation where
  manifest := ⟨.manifest, "out/xmonad.cabal".toList, "build-depends: base\n".toList,
    "build-depends: base\n".toList⟩
  config := ⟨.config, "out/Config.hs".toList, "-- % Extension-provided definitions\nmain = x\n".toList,
    ("-- % Extension-provided definitions\n--   For extension A:\n-- a = 1\n-- b = 2\n" ++
      "--   For extension B:\n-- c = 3\nmain = x\n").toList⟩
  contributions := [⟨"B".toList, .definition, 1⟩, ⟨"A".toList, .definition, 2⟩]

theorem scan_sample : sampleContext.scan sampleTree =
    .ok (⟨["ext/B.hs".toList, "ext/A.hs".toList], some "ext/Z.hs".toList⟩, sampleScans) := by
  refine bind_eq_ok.mpr ⟨_, Listing.ofDirectory_of_pairwise rfl
    ["A.hs".toList, "B.hs".toList, "Z.hs".toList] (by decide +kernel) (by decide +kernel), ?_⟩
  rfl

theorem run_sample : run sampleTree sampleContext = .ok sample :=
  run_of_splice rfl rfl scan_sample (Prod.ext rfl rfl) (by decide +kernel) (by decide +kernel)

theorem config_of_sample_run :
    ∃ (names : List Text) (sources : List Source) (final : Drafts),
      Gathered sampleTree sampleContext names sources ∧
      sample.config.content = final.config.render ∧
      final.config.lines =
        weave (fun marker => sources.flatMap (Source.below .builtin .passive "--".toList marker))
          sample.config.template.lines := by
  obtain ⟨names, sources, final, hgathered, ⟨listing, hscan⟩, -, -, hcontent, hlines⟩ :=
    config_of_run run_sample
  refine ⟨names, sources, final, hgathered, hcontent, hlines ?_⟩
  have hscans : sampleScans = sources.reverse.map Source.scan :=
    (Prod.mk.inj (Except.ok.inj (scan_sample.symm.trans hscan))).2
  rw [← Source.flatMap_blocks_scan, ← hscans]
  decide +kernel

end Generation
end TemplateSplice
