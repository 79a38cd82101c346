import Mathlib.Data.List.Forall2
import TemplateSplice.Proofs.TwoRuns

/-! One set of scans spliced live and commented out. The mode is read in one place, for what stands
before a payload, so the two runs differ in the texts of payloads and, through these, in nothing else:
as long as no text can be taken for another marker, their configs agree line for line up to that prefix.
A manifest holds dependencies alone, which are live in either mode. -/

namespace TemplateSplice

/-- Two lines that are equal, or that are one payload of one block, live and commented out. -/
def Counterpart (c : Catalog) (blocks : List Block) (active passive : Text) : Prop :=
  active = passive ∨ ∃ b ∈ blocks, ∃ payload ∈ b.payloads,
    active = (c.rule b.tag).indent ++ (c.rule b.tag).activePrefix ++ payload ∧
    passive = (c.rule b.tag).indent ++ (c.rule b.tag).passivePrefix ++ payload

theorem Rule.render_active (r : Rule) (payload : Text) :
    r.render .active payload = r.indent ++ r.activePrefix ++ payload := by
  simp [render, lead]

theorem Rule.render_passive {r : Rule} (h : r.tag ≠ .buildDependency) (payload : Text) :
    r.render .passive payload = r.indent ++ r.passivePrefix ++ payload := by
  simp [render, lead, h]

theorem Origin.counterpart {c : Catalog} {comment : Text} {template : List Text} {blocks : List Block}
    {o : Origin} {active passive : Text}
    (ha : o.text? c .active comment template blocks = some active)
    (hp : o.text? c .passive comment template blocks = some passive) :
    Counterpart c blocks active passive := by
  cases o with
  | template i => exact Or.inl (Option.some.inj (ha.symm.trans hp))
  | heading n => exact Or.inl (Option.some.inj (ha.symm.trans hp))
  | payload n i =>
    simp only [text?, Option.bind_eq_some_iff, Option.map_eq_some_iff] at ha hp
    obtain ⟨b, hb, payload, hpayload, rfl⟩ := ha
    obtain ⟨b', hb', payload', hpayload', rfl⟩ := hp
    obtain rfl := Option.some.inj (hb.symm.trans hb')
    obtain rfl := Option.some.inj (hpayload.symm.trans hpayload')
    obtain ⟨hblock, htag⟩ := Block.placed?_eq_some_iff.mp hb
    exact Or.inr ⟨b, List.mem_of_getElem? hblock, payload, List.mem_of_getElem? hpayload,
      (c.rule b.tag).render_active payload, Rule.render_passive htag payload⟩

/-- Two lists that are read off the same labels are related when what each label stands for is. -/
theorem forall₂_of_labels {α β : Type} {R : β → β → Prop} {f g : α → Option β} {labels : List α}
    {xs ys : List β} (hx : labels.map f = xs.map some) (hy : labels.map g = ys.map some)
    (h : ∀ label x y, f label = some x → g label = some y → R x y) : List.Forall₂ R xs ys := by
  induction labels generalizing xs ys with
  | nil =>
    obtain rfl : xs = [] := by simpa using hx.symm
    obtain rfl : ys = [] := by simpa using hy.symm
    exact .nil
  | cons label rest ih =>
    cases xs with
    | nil => simp at hx
    | cons x xs =>
      cases ys with
      | nil => simp at hy
      | cons y ys =>
        rw [List.map_cons, List.map_cons, List.cons.injEq] at hx hy
        exact .cons (h label x y hx.1 hy.1) (ih hx.2 hy.2)

namespace Drafts

variable {c : Catalog} {mode : Mode} {comment : Text} {start : Drafts} {sources : List Source}

theorem splice_eq_ok (hd : start.manifest.anchors = []) {contributions : List Contribution}
    (h : (start.splice c mode comment (sources.map Source.scan)).2 = .ok contributions) :
    contributions = (sources.flatMap Source.blocks).map Block.contribution ∧
      (start.splice c mode comment (sources.map Source.scan)).1.manifest =
        start.manifest.grown (c.rule .buildDependency).marker
          (c.additions (sources.flatMap Source.blocks)) := by
  obtain ⟨hrun, hcontributions⟩ := splice_eq_ok_iff.mp h
  have hpayloads : ∀ b ∈ sources.flatMap Source.blocks, b.payloads ≠ [] :=
    fun _ hb => Source.payloads_ne_nil hb
  have hmanifest := (manifest_run c mode comment start hd hpayloads).1.eq_grown
  rw [(completed_eq_self_iff start _).mpr hrun] at hmanifest
  rw [splice_scans]
  exact ⟨hcontributions, hmanifest⟩

end Drafts

/-- The same scans spliced in the two modes. If both runs come through, their contributions and their
manifests are the same. If moreover no text that either of them puts into the config can be taken for
the marker of another rule, both come through or both end with the same fault, and their configs are
line for line counterparts. -/
theorem counterparts_of_modes (manifestPath configPath : Path) (manifest config : Text) (c : Catalog)
    (comment : Text) (sources : List Source) :
    let start : Drafts := ⟨.ofTemplate manifestPath manifest, .ofTemplate configPath config⟩
    let active := start.splice c .active comment (sources.map Source.scan)
    let passive := start.splice c .passive comment (sources.map Source.scan)
    let blocks := sources.flatMap Source.blocks
    (∀ live commented, active.2 = .ok live → passive.2 = .ok commented →
      live = commented ∧ active.1.manifest.render = passive.1.manifest.render) ∧
    (NoImitation c .active comment (start.completed c .active comment blocks) →
      NoImitation c .passive comment (start.completed c .passive comment blocks) →
      active.2 = passive.2 ∧
      active.1.config.lines.length = passive.1.config.lines.length ∧
      List.Forall₂ (Counterpart c blocks) active.1.config.lines passive.1.config.lines) := by
  intro start active passive blocks
  have hpayloads : ∀ b ∈ blocks, b.payloads ≠ [] := fun b hb => Source.payloads_ne_nil hb
  constructor
  · intro live commented hlive hcommented
    obtain ⟨hblocks, hmanifest⟩ := Drafts.splice_eq_ok rfl hlive
    obtain ⟨hblocks', hmanifest'⟩ := Drafts.splice_eq_ok rfl hcommented
    exact ⟨hblocks.trans hblocks'.symm, congrArg Draft.render (hmanifest.trans hmanifest'.symm)⟩
  · intro hq hq'
    have hactive : active = _ := Drafts.splice_scans start sources
    have hpassive : passive = _ := Drafts.splice_scans start sources
    obtain ⟨hfault, horigins⟩ := (Woven.refl c .active comment start).two_runs
      (Woven.refl c .passive comment start) rfl hpayloads hpayloads hq hq' rfl rfl 0
      ((List.range start.config.lines.length).map .template)
    have hlines := Drafts.map_text?_origins c .active comment start hpayloads
    have hlines' := Drafts.map_text?_origins c .passive comment start hpayloads
    rw [Drafts.origins, horigins] at hlines
    have hcounterparts := forall₂_of_labels hlines hlines' fun _ _ _ => Origin.counterpart
    rw [hactive, hpassive, hfault]
    exact ⟨rfl, hcounterparts.length_eq, hcounterparts⟩

/-- Two files that bring definitions and a dependency, spliced live and commented out. -/
theorem counterparts_of_two_files :
    let start : Drafts :=
      ⟨.ofTemplate "xmonad.cabal".toList "build-depends: base\n".toList,
        .ofTemplate "Config.hs".toList "-- % Extension-provided definitions\nmain = x\n".toList⟩
    let sources : List Source := [⟨"B.hs".toList, "--".toList, "-- %cabalbuilddep array\n".toList⟩,
      ⟨"A.hs".toList, "--".toList, "-- %def a = 2\n".toList⟩]
    let active := start.splice .builtin .active "--".toList (sources.map Source.scan)
    let passive := start.splice .builtin .passive "--".toList (sources.map Source.scan)
    active.2 = passive.2 ∧
      List.Forall₂ (Counterpart .builtin (sources.flatMap Source.blocks)) active.1.config.lines
        passive.1.config.lines ∧
      active.1.config.lines ≠ passive.1.config.lines := by
  intro start sources active passive
  obtain ⟨hfault, -, hlines⟩ := (counterparts_of_modes "xmonad.cabal".toList "Config.hs".toList
    "build-depends: base\n".toList "-- % Extension-provided definitions\nmain = x\n".toList .builtin
    "--".toList sources).2 (by decide +kernel) (by decide +kernel)
  refine ⟨hfault, hlines, ?_⟩
  decide +kernel

end TemplateSplice
