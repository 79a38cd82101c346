import TemplateSplice.Proofs.Manifest
import TemplateSplice.Proofs.Weave

/-! Runs in which no inserted text can be taken for the marker of another rule. Then the config is woven
from its template and the blocks spliced so far, whatever their order was. Earlier blocks neither make
nor break a match for a later one, so the template alone decides which blocks are refused. -/

namespace TemplateSplice

/-- What stands below a marker: the blocks of all rules that have it, last first. -/
def Catalog.below (c : Catalog) (mode : Mode) (comment : Text) (blocks : List Block) (marker : Text) :
    List Text :=
  (blocks.filter fun b => b.tag.placement = .afterMarker ∧ (c.rule b.tag).marker = marker).reverse
    |>.flatMap (Block.lines c mode comment)

/-- No heading and no rendered payload is the marker of a rule other than its own, once trimmed. Rules
that share a marker are not told apart. -/
def NoImitation (c : Catalog) (mode : Mode) (comment : Text) (blocks : List Block) : Prop :=
  ∀ b ∈ blocks, b.tag.placement = .afterMarker → ∀ text ∈ b.lines c mode comment,
    ∀ tag ∈ Tag.all, tag.placement = .afterMarker →
      (c.rule tag).marker ≠ (c.rule b.tag).marker → Text.trim text ≠ (c.rule tag).marker

instance (c : Catalog) (mode : Mode) (comment : Text) (blocks : List Block) :
    Decidable (NoImitation c mode comment blocks) := by
  unfold NoImitation; infer_instance

def Drafts.Anchored (start : Drafts) (c : Catalog) (tag : Tag) : Prop :=
  ∃ line ∈ (start.get tag.target).lines, tag.placement.accepts (c.rule tag).marker line = true

instance (start : Drafts) (c : Catalog) (tag : Tag) : Decidable (start.Anchored c tag) := by
  unfold Drafts.Anchored; infer_instance

/-- The drafts once `done` has been spliced into the templates `start`. -/
structure Woven (c : Catalog) (mode : Mode) (comment : Text) (start : Drafts) (done : List Block)
    (ds : Drafts) : Prop where
  config : ds.config =
    { start.config with lines := weave (c.below mode comment done) start.config.lines }
  manifest : start.manifest.ManifestAfter c done ds.manifest

section
variable {c : Catalog} {mode : Mode} {comment : Text} {done : List Block} {b : Block}

theorem NoImitation.subset {more : List Block} (h : NoImitation c mode comment more)
    (hsub : done ⊆ more) : NoImitation c mode comment done :=
  fun b hb => h b (hsub hb)

theorem Catalog.below_dependency (hb : b.tag = .buildDependency) :
    c.below mode comment (done ++ [b]) = c.below mode comment done := by
  funext marker
  simp [below, hb, Tag.placement]

theorem Catalog.below_config (hb : b.tag ≠ .buildDependency) :
    c.below mode comment (done ++ [b]) =
      Function.update (c.below mode comment done) (c.rule b.tag).marker
        (b.lines c mode comment ++ c.below mode comment done (c.rule b.tag).marker) := by
  have hp := (Tag.placement_eq_afterMarker_iff b.tag).mpr hb
  funext marker
  by_cases hm : marker = (c.rule b.tag).marker
  · subst hm
    rw [Function.update_self]
    simp [below, hp]
  · rw [Function.update_of_ne hm]
    simp [below, hp, Ne.symm hm]

theorem NoImitation.apart (h : NoImitation c mode comment done) {tag : Tag}
    (htag : tag ≠ .buildDependency) : Apart (c.below mode comment done) (c.rule tag).marker := by
  intro other hother text hmem
  obtain ⟨b, hb, htext⟩ := List.mem_flatMap.mp hmem
  obtain ⟨hdone, hrule⟩ := List.mem_filter.mp (List.mem_reverse.mp hb)
  obtain ⟨hplacement, rfl⟩ := of_decide_eq_true hrule
  exact h b hdone hplacement text htext tag tag.mem_all
    ((Tag.placement_eq_afterMarker_iff tag).mpr htag) (Ne.symm hother)

/-- The first block whose marker the template lacks, if there is one. -/
theorem Drafts.Anchored.all_or_first (start : Drafts) (c : Catalog) (blocks : List Block) :
    (∀ b ∈ blocks, start.Anchored c b.tag) ∨
      ∃ before b after, blocks = before ++ b :: after ∧ (∀ a ∈ before, start.Anchored c a.tag) ∧
        ¬ start.Anchored c b.tag := by
  cases hfirst : blocks.find? (fun b => ¬ start.Anchored c b.tag) with
  | none => exact Or.inl (by simpa using hfirst)
  | some b =>
    obtain ⟨hb, before, after, hblocks, hbefore⟩ := List.find?_eq_some_iff_append.mp hfirst
    exact Or.inr ⟨before, b, after, hblocks, by simpa using hbefore, by simpa using hb⟩

namespace Woven

variable {start ds : Drafts}

theorem refl (c : Catalog) (mode : Mode) (comment : Text) (start : Drafts) :
    Woven c mode comment start [] start := by
  refine ⟨?_, rfl, fun _ => rfl⟩
  have hbelow : c.below mode comment [] = fun _ => [] := rfl
  rw [hbelow, weave_nothing]

theorem lines (h : Woven c mode comment start done ds) :
    ds.config.lines = weave (c.below mode comment done) start.config.lines := by
  rw [h.config]

theorem spliceBlock_of_anchored (h : Woven c mode comment start done ds)
    (hd : start.manifest.anchors = []) (hq : NoImitation c mode comment done)
    (hp : b.payloads ≠ []) (ha : start.Anchored c b.tag) :
    (ds.spliceBlock c mode comment b).2 = none ∧
      Woven c mode comment start (done ++ [b]) (ds.spliceBlock c mode comment b).1 := by
  obtain ⟨above, line, below, hsplit⟩ := split_of_accepts ha
  by_cases hb : b.tag = .buildDependency
  · rw [hb] at hsplit
    obtain ⟨hok, hmanifest⟩ := h.manifest.splice_of_split hd hsplit hb mode comment
    rw [Drafts.spliceBlock_dependency ds hb]
    refine ⟨hok, ?_, hmanifest⟩
    rw [Catalog.below_dependency hb]; exact h.config
  · have htarget : b.tag.target = .config := c.target_rule hb
    have hplacement : b.tag.placement = .afterMarker := c.placement_rule hb
    have hconfig : Split .afterMarker (c.rule b.tag).marker start.config.lines above line below := by
      rwa [htarget, hplacement] at hsplit
    obtain ⟨rest', hwoven, hnew⟩ := weave_of_split (hq.apart hb) hconfig
    rw [← h.lines] at hwoven
    rw [Drafts.spliceBlock_config ds hb, Draft.splice_of_split (c.placement_rule hb) hp hwoven]
    refine ⟨rfl, ?_, h.manifest.config hb⟩
    rw [Catalog.below_config hb, hnew, h.config]
    rfl

theorem spliceBlock_of_not_anchored (h : Woven c mode comment start done ds)
    (hq : NoImitation c mode comment done) (hp : b.payloads ≠ []) (ha : ¬ start.Anchored c b.tag) :
    ds.spliceBlock c mode comment b =
      (ds, some (.missingMarker b.tag (c.rule b.tag).marker (start.get b.tag.target).path
        b.extension)) := by
  have hnone : ∀ line ∈ (start.get b.tag.target).lines,
      b.tag.placement.accepts (c.rule b.tag).marker line = false := by
    intro line hline
    by_contra hne
    exact ha ⟨line, hline, by simpa using hne⟩
  by_cases hb : b.tag = .buildDependency
  · rw [hb] at hnone
    rw [Drafts.spliceBlock_dependency ds hb, h.manifest.splice_of_none hnone hp, hb]
    rfl
  · have htarget : b.tag.target = .config := c.target_rule hb
    have hplacement : b.tag.placement = .afterMarker := c.placement_rule hb
    rw [htarget, hplacement] at hnone
    have hwoven : ∀ line ∈ ds.config.lines,
        (c.rule b.tag).placement.accepts (c.rule b.tag).marker line = false := by
      rw [h.lines, c.placement_rule hb]
      exact weave_of_none (hq.apart hb) hnone
    have hpath : ds.config.path = start.config.path := by rw [h.config]
    rw [Drafts.spliceBlock_config ds hb, Draft.splice_of_none hp hwoven, htarget, hpath]
    rfl

theorem spliceBlocks_of_anchored {blocks : List Block} (h : Woven c mode comment start done ds)
    (hd : start.manifest.anchors = []) (hq : NoImitation c mode comment (done ++ blocks))
    (hp : ∀ b ∈ blocks, b.payloads ≠ []) (ha : ∀ b ∈ blocks, start.Anchored c b.tag) :
    (ds.spliceBlocks c mode comment blocks).2 = none ∧
      Woven c mode comment start (done ++ blocks) (ds.spliceBlocks c mode comment blocks).1 := by
  induction blocks generalizing ds done with
  | nil =>
    rw [List.append_nil]
    exact ⟨rfl, h⟩
  | cons b rest ih =>
    obtain ⟨hp, hprest⟩ := List.forall_mem_cons.mp hp
    obtain ⟨ha, harest⟩ := List.forall_mem_cons.mp ha
    obtain ⟨hok, hnext⟩ := h.spliceBlock_of_anchored hd (hq.subset (by simp)) hp ha
    rw [List.append_cons] at hq ⊢
    have hrest := ih hnext hq hprest harest
    rw [Drafts.spliceBlocks_cons]
    rcases hs : ds.spliceBlock c mode comment b with ⟨next, _ | fault⟩
    · rw [hs] at hrest; exact hrest
    · rw [hs] at hok; cases hok

theorem spliceBlocks_of_not_anchored {before after : List Block}
    (h : Woven c mode comment start done ds) (hd : start.manifest.anchors = [])
    (hq : NoImitation c mode comment (done ++ (before ++ b :: after)))
    (hp : ∀ a ∈ before ++ b :: after, a.payloads ≠ [])
    (hbefore : ∀ a ∈ before, start.Anchored c a.tag) (hb : ¬ start.Anchored c b.tag) :
    ds.spliceBlocks c mode comment before =
        ((ds.spliceBlocks c mode comment (before ++ b :: after)).1, none) ∧
      (ds.spliceBlocks c mode comment (before ++ b :: after)).2 =
        some (.missingMarker b.tag (c.rule b.tag).marker (start.get b.tag.target).path
          b.extension) := by
  have hsub : done ++ before ⊆ done ++ (before ++ b :: after) := by simp
  obtain ⟨hok, hwoven⟩ := h.spliceBlocks_of_anchored hd (hq.subset hsub)
    (fun a ha => hp a (List.mem_append_left _ ha)) hbefore
  have hrefuse := hwoven.spliceBlock_of_not_anchored (hq.subset hsub) (hp b (by simp)) hb
  rw [Drafts.spliceBlocks_append]
  rcases hs : ds.spliceBlocks c mode comment before with ⟨next, _ | fault⟩
  · rw [hs] at hrefuse
    simp only [Drafts.spliceBlocks_cons, hrefuse]
    exact ⟨trivial, trivial⟩
  · rw [hs] at hok; cases hok

theorem spliceBlocks_eq_none_iff {blocks : List Block} (h : Woven c mode comment start done ds)
    (hd : start.manifest.anchors = []) (hq : NoImitation c mode comment (done ++ blocks))
    (hp : ∀ b ∈ blocks, b.payloads ≠ []) :
    (ds.spliceBlocks c mode comment blocks).2 = none ↔ ∀ b ∈ blocks, start.Anchored c b.tag := by
  constructor
  · intro hok
    rcases Drafts.Anchored.all_or_first start c blocks with hall | ⟨before, b, after, rfl, hbefore, hb⟩
    · exact hall
    · rw [(h.spliceBlocks_of_not_anchored hd hq hp hbefore hb).2] at hok
      cases hok
  · exact fun ha => (h.spliceBlocks_of_anchored hd hq hp ha).1

theorem of_splice {sources : List Source} {contributions : List Contribution} {final : Drafts}
    (hd : start.manifest.anchors = []) (hq : NoImitation c mode comment (sources.flatMap Source.blocks))
    (h : start.splice c mode comment (sources.map Source.scan) = (final, .ok contributions)) :
    Woven c mode comment start (sources.flatMap Source.blocks) final := by
  have hstart : Woven c mode comment start [] start := .refl c mode comment start
  have hpayloads : ∀ b ∈ sources.flatMap Source.blocks, b.payloads ≠ [] :=
    fun b hb => Source.payloads_ne_nil hb
  rw [Drafts.splice_scans, Prod.mk.injEq] at h
  obtain ⟨rfl, h⟩ := h
  split at h
  · next hok =>
    have hanchored := (hstart.spliceBlocks_eq_none_iff hd hq hpayloads).mp hok
    exact (hstart.spliceBlocks_of_anchored hd hq hpayloads hanchored).2
  · cases h

end Woven
end

/-- When a run fails and how. A source brings payloads for a tag whose marker its template lacks, and
the first pair of that kind is the one named; the drafts are those that the pairs before it give. -/
theorem missingMarker_of_splice (manifestPath configPath : Path) (manifest config : Text) (c : Catalog)
    (mode : Mode) (comment : Text) (sources : List Source)
    (hq : NoImitation c mode comment (sources.flatMap Source.blocks)) :
    let start : Drafts := ⟨.ofTemplate manifestPath manifest, .ofTemplate configPath config⟩
    let final := start.splice c mode comment (sources.map Source.scan)
    ((∃ fault, final.2 = .error fault) ↔
      ∃ s ∈ sources, ∃ tag, s.payloads tag ≠ [] ∧ ¬ start.Anchored c tag) ∧
    ∀ before b after, sources.flatMap Source.blocks = before ++ b :: after →
      (∀ a ∈ before, start.Anchored c a.tag) → ¬ start.Anchored c b.tag →
      final.2 = .error (.missingMarker b.tag (c.rule b.tag).marker (start.get b.tag.target).path
        b.extension) ∧
      start.spliceBlocks c mode comment before = (final.1, none) := by
  intro start final
  have hfinal : final = _ := Drafts.splice_scans start sources
  have hstart : Woven c mode comment start [] start := .refl c mode comment start
  have hpayloads : ∀ b ∈ sources.flatMap Source.blocks, b.payloads ≠ [] :=
    fun b hb => Source.payloads_ne_nil hb
  constructor
  · have hok : (start.spliceBlocks c mode comment (sources.flatMap Source.blocks)).2 = none ↔
        ∀ b ∈ sources.flatMap Source.blocks, start.Anchored c b.tag :=
      hstart.spliceBlocks_eq_none_iff rfl hq hpayloads
    constructor
    · rintro ⟨fault, hfault⟩
      by_contra hall
      have hanchored : ∀ b ∈ sources.flatMap Source.blocks, start.Anchored c b.tag := by
        intro b hb
        obtain ⟨s, hs, hmem⟩ := List.mem_flatMap.mp hb
        by_contra hno
        exact hall ⟨s, hs, b.tag, (Source.mem_blocks.mp hmem).1, hno⟩
      rw [hfinal, hok.mpr hanchored] at hfault
      cases hfault
    · rintro ⟨s, hs, tag, hne, hno⟩
      have hmem : (⟨s.file.stem, tag, s.payloads tag⟩ : Block) ∈ sources.flatMap Source.blocks :=
        List.mem_flatMap.mpr ⟨s, hs, Source.mem_blocks.mpr ⟨hne, rfl⟩⟩
      rcases hr : (start.spliceBlocks c mode comment (sources.flatMap Source.blocks)).2 with _ | fault
      · exact absurd (hok.mp hr _ hmem) hno
      · exact ⟨fault, by rw [hfinal, hr]⟩
  · intro before b after hpairs hbefore hb
    rw [hpairs] at hq hpayloads hfinal
    obtain ⟨hleft, hfault⟩ := hstart.spliceBlocks_of_not_anchored rfl hq hpayloads hbefore hb
    rw [hfinal, hfault]
    exact ⟨rfl, hleft⟩

theorem missingMarker_of_template_without_imports :
    let start : Drafts :=
      ⟨.ofTemplate "xmonad.cabal".toList "build-depends: base\n".toList,
        .ofTemplate "Config.hs".toList "-- % Extension-provided definitions\n".toList⟩
    let first : Source := ⟨"B.hs".toList, "--".toList, "-- %cabalbuilddep array\n-- %def b = 1\n".toList⟩
    let second : Source := ⟨"A.hs".toList, "--".toList, "-- %import A\n-- %def a = 2\n".toList⟩
    let final := start.splice .builtin .active "--".toList [first.scan, second.scan]
    final.2 = .error (.missingMarker .moduleImport "-- % Extension-provided imports".toList
      "Config.hs".toList "A".toList) ∧
    final.1.config.lines = ["-- % Extension-provided definitions".toList,
      "--   For extension A:".toList, "a = 2".toList, "--   For extension B:".toList,
      "b = 1".toList] := by
  intro start first second final
  have hrun := (missingMarker_of_splice "xmonad.cabal".toList "Config.hs".toList
    "build-depends: base\n".toList "-- % Extension-provided definitions\n".toList .builtin .active
    "--".toList [first, second] (by decide +kernel)).2
    (first.blocks ++ [⟨"A".toList, .definition, ["a = 2".toList]⟩])
    ⟨"A".toList, .moduleImport, ["A".toList]⟩ [] (by decide +kernel) (by decide +kernel)
    (by decide +kernel)
  refine ⟨hrun.1, ?_⟩
  decide +kernel

end TemplateSplice
