import Mathlib.Data.List.Forall2
import TemplateSplice.Proofs.Trim
import TemplateSplice.Proofs.TwoRuns

/-! Whether payloads can steer where other contributions go. They can: a payload that reads like a
marker once it is rendered is taken for it by the blocks that come later, and even stands in for a
marker that the template lacks (`payload_stands_in_for_marker`). With the builtin catalog that is all
there is to fear. A heading ends in a colon, as no marker does, so scans whose payloads stay clear of
the other markers are spliced to the same places, whatever the payloads are. -/

namespace TemplateSplice

namespace Text

theorem getLast?_trim_append_singleton (s : Text) {c : Char} (h : isBlank c = false) :
    (trim (s ++ [c])).getLast? = some c := by
  obtain ⟨front, hfront⟩ : ∃ front, trimStart (s ++ [c]) = front ++ [c] := by
    rw [trimStart_append]
    split_ifs
    · exact ⟨[], by simp [trimStart, h]⟩
    · exact ⟨trimStart s, rfl⟩
  rw [trim, hfront, trimEnd_append_singleton front h, List.getLast?_concat]

end Text

/-- Two extension files of one name that bring equally many payloads for each tag. -/
def Source.SameShape (s s' : Source) : Prop :=
  s.file = s'.file ∧ ∀ tag ∈ Tag.all, (s.payloads tag).length = (s'.payloads tag).length

instance (s s' : Source) : Decidable (s.SameShape s') := by
  unfold Source.SameShape; infer_instance

/-- No payload that goes into the config is, once rendered and trimmed, the marker of another rule. -/
def PayloadsApart (c : Catalog) (mode : Mode) (blocks : List Block) : Prop :=
  ∀ b ∈ blocks, b.tag ≠ .buildDependency → ∀ payload ∈ b.payloads,
    ∀ tag ∈ Tag.all, tag ≠ .buildDependency → tag ≠ b.tag →
      Text.trim ((c.rule b.tag).render mode payload) ≠ (c.rule tag).marker

instance (c : Catalog) (mode : Mode) (blocks : List Block) : Decidable (PayloadsApart c mode blocks) := by
  unfold PayloadsApart; infer_instance

theorem Source.SameShape.blocks {s s' : Source} (h : s.SameShape s') :
    s.blocks.map Block.contribution = s'.blocks.map Block.contribution := by
  obtain ⟨hfile, hcount⟩ := h
  have hfilter : Tag.all.filter (s.payloads · ≠ []) = Tag.all.filter (s'.payloads · ≠ []) := by
    apply List.filter_congr
    intro tag htag
    simp only [ne_eq, ← List.length_eq_zero_iff, hcount tag htag]
  rw [Source.blocks, Source.blocks, hfilter, List.map_map, List.map_map]
  apply List.map_congr_left
  intro tag htag
  simp [Block.contribution, hfile, hcount tag tag.mem_all]

theorem Source.contributions_of_sameShape {sources sources' : List Source}
    (h : List.Forall₂ Source.SameShape sources sources') :
    (sources.flatMap Source.blocks).map Block.contribution =
      (sources'.flatMap Source.blocks).map Block.contribution := by
  induction h with
  | nil => rfl
  | cons hs _ ih =>
    rw [List.flatMap_cons, List.flatMap_cons, List.map_append, List.map_append, hs.blocks, ih]

theorem Catalog.builtin_heading_ne_marker (tag tag' : Tag) (comment extension : Text)
    (h : tag' ≠ .buildDependency) :
    Text.trim ((Catalog.builtin.rule tag).heading comment extension) ≠ (Catalog.builtin.rule tag').marker := by
  have hcolon : ((Catalog.builtin.rule tag').marker).getLast? ≠ some ':' := by
    revert h
    cases tag' <;> decide
  intro heq
  apply hcolon
  rw [← heq, Rule.heading]
  exact Text.getLast?_trim_append_singleton _ (by decide)

/-- With the builtin catalog payloads are the only texts that could be taken for a marker. -/
theorem NoImitation.of_payloadsApart {mode : Mode} {blocks : List Block}
    (h : PayloadsApart .builtin mode blocks) (comment : Text) :
    NoImitation .builtin mode comment blocks := by
  intro b hb hplacement text htext tag htag htarget hmarker
  have hconfig : tag ≠ .buildDependency := (Tag.placement_eq_afterMarker_iff tag).mp htarget
  rcases List.mem_cons.mp htext with rfl | htext
  · exact Catalog.builtin_heading_ne_marker b.tag tag comment b.extension hconfig
  · obtain ⟨payload, hpayload, rfl⟩ := List.mem_map.mp htext
    have hother : tag ≠ b.tag := by
      rintro rfl
      exact hmarker rfl
    exact h b hb ((Tag.placement_eq_afterMarker_iff b.tag).mp hplacement) payload hpayload tag htag
      hconfig hother

/-- Two runs, with the builtin catalog, over scans of the same files with equally many payloads for each
tag. If in neither run a payload that has gone into the config is the marker of another rule, they end
in the same way, and every line of the one config comes from where the same line of the other comes
from; block `n` is in both for the same extension and tag. If they come through, the templates have a
line for the marker of every tag that payloads were brought for. -/
theorem same_origins_of_same_shape (manifestPath configPath : Path) (manifest config : Text) (mode : Mode)
    (comment : Text) (sources sources' : List Source)
    (hshape : List.Forall₂ Source.SameShape sources sources') :
    let start : Drafts := ⟨.ofTemplate manifestPath manifest, .ofTemplate configPath config⟩
    let blocks := sources.flatMap Source.blocks
    let blocks' := sources'.flatMap Source.blocks
    let final := start.splice .builtin mode comment (sources.map Source.scan)
    let final' := start.splice .builtin mode comment (sources'.map Source.scan)
    let origins := start.origins .builtin mode comment blocks
    PayloadsApart .builtin mode (start.completed .builtin mode comment blocks) →
    PayloadsApart .builtin mode (start.completed .builtin mode comment blocks') →
      final.2 = final'.2 ∧
      (∀ fault, final.2 = .error fault → ∃ tag path extension,
        fault = .missingMarker tag (Catalog.builtin.rule tag).marker path extension) ∧
      blocks.map Block.contribution = blocks'.map Block.contribution ∧
      origins.map (Origin.text? .builtin mode comment config.lines blocks) =
        final.1.config.lines.map some ∧
      origins.map (Origin.text? .builtin mode comment config.lines blocks') =
        final'.1.config.lines.map some ∧
      start.origins .builtin mode comment blocks' = origins ∧
      (∀ contributions, final.2 = .ok contributions →
        ∀ b ∈ blocks, start.Anchored .builtin b.tag) := by
  intro start blocks blocks' final final' origins hapart hapart'
  have hblocks := Source.contributions_of_sameShape hshape
  have hpayloads : ∀ b ∈ blocks, b.payloads ≠ [] := fun _ hb => Source.payloads_ne_nil hb
  have hpayloads' : ∀ b ∈ blocks', b.payloads ≠ [] := fun _ hb => Source.payloads_ne_nil hb
  have hfinal : final = _ := Drafts.splice_scans start sources
  have hfinal' : final' = _ := Drafts.splice_scans start sources'
  have hstart : Woven .builtin mode comment start [] start := .refl .builtin mode comment start
  obtain ⟨hfault, horigins⟩ := hstart.two_runs hstart rfl hpayloads hpayloads'
    (.of_payloadsApart hapart comment) (.of_payloadsApart hapart' comment) rfl hblocks 0
    ((List.range start.config.lines.length).map .template)
  have hlines := Drafts.map_text?_origins .builtin mode comment start hpayloads
  have hlines' := Drafts.map_text?_origins .builtin mode comment start hpayloads'
  refine ⟨?_, ?_, hblocks, ?_, ?_, horigins.symm, ?_⟩
  · rw [hfinal, hfinal', hfault, hblocks]
  · intro fault hresult
    have hrun := Drafts.splice_eq_error_iff.mp hresult
    exact (Drafts.manifest_run .builtin mode comment start rfl hpayloads).2 fault hrun
  · rw [hfinal]; exact hlines
  · rw [hfinal', show origins = _ from horigins]; exact hlines'
  · intro contributions hresult
    obtain ⟨hok, -⟩ := Drafts.splice_eq_ok_iff.mp hresult
    have hall := (Drafts.completed_eq_self_iff start blocks).mpr hok
    rw [hall] at hapart
    exact (hstart.spliceBlocks_eq_none_iff rfl (.of_payloadsApart hapart comment) hpayloads).mp hok

/-- The two runs over definitions of different wording. -/
theorem same_origins_of_two_wordings :
    let start : Drafts :=
      ⟨.ofTemplate "xmonad.cabal".toList [],
        .ofTemplate "Config.hs".toList
          "-- % Extension-provided imports\n-- % Extension-provided definitions\nmain = x\n".toList⟩
    let source : Source := ⟨"A.hs".toList, "--".toList, "-- %def a = 1\n-- %import Data.List\n".toList⟩
    let source' : Source :=
      ⟨"A.hs".toList, "--".toList, "-- %import Data.Map\n-- %def % Extension-provided definitions\n".toList⟩
    source.SameShape source' ∧
      start.origins .builtin .passive "--".toList source.blocks =
        start.origins .builtin .passive "--".toList source'.blocks ∧
      start.origins .builtin .passive "--".toList source.blocks =
        [.template 0, .heading 1, .payload 1 0, .template 1, .heading 0, .payload 0 0, .template 2] := by
  intro start source source'
  have hshape : source.SameShape source' := by decide +kernel
  have hsame := same_origins_of_same_shape "xmonad.cabal".toList "Config.hs".toList []
    "-- % Extension-provided imports\n-- % Extension-provided definitions\nmain = x\n".toList .passive
    "--".toList [source] [source'] (.cons hshape .nil) (by decide +kernel) (by decide +kernel)
  refine ⟨hshape, ?_, by decide +kernel⟩
  have horigins := hsame.2.2.2.2.2.1
  simp only [List.flatMap_cons, List.flatMap_nil, List.append_nil] at horigins
  exact horigins.symm

/-- A definition that reads like the marker of the imports. The template has no such marker, and a run
over another definition ends there; this one goes through, with the import below the definition. -/
theorem payload_stands_in_for_marker :
    let start : Drafts :=
      ⟨.ofTemplate "xmonad.cabal".toList [],
        .ofTemplate "Config.hs".toList "-- % Extension-provided definitions\n".toList⟩
    let plain : Source := ⟨"A.hs".toList, "--".toList, "-- %def a = 1\n-- %import Data.List\n".toList⟩
    let steering : Source :=
      ⟨"A.hs".toList, "--".toList, "-- %def % Extension-provided imports\n-- %import Data.List\n".toList⟩
    let stopped := start.splice .builtin .passive "--".toList [plain.scan]
    let final := start.splice .builtin .passive "--".toList [steering.scan]
    plain.SameShape steering ∧
      stopped.2 = .error (.missingMarker .moduleImport "-- % Extension-provided imports".toList
        "Config.hs".toList "A".toList) ∧
      final.2 = .ok [⟨"A".toList, .definition, 1⟩, ⟨"A".toList, .moduleImport, 1⟩] ∧
      final.1.config.lines = ["-- % Extension-provided definitions".toList,
        "--   For extension A:".toList, "-- % Extension-provided imports".toList,
        "--   For extension A:".toList, "-- import Data.List".toList] := by
  decide +kernel

end TemplateSplice
