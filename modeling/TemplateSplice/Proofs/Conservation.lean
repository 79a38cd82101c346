import Mathlib.Algebra.GroupWithZero.Nat
import TemplateSplice.Proofs.Run

/-! Nothing is lost and nothing made up. A payload may look like any marker, so that a later block lands
inside an earlier one; but a block always goes in as a whole between two lines, and that is enough for
what is said here: every line of the template and every line of a block is there once, and lines that
belong together are in their order. -/

namespace TemplateSplice

/-- What lines hold once `done` has been spliced into a template. -/
structure Conserved (c : Catalog) (mode : Mode) (comment : Text) (template : List Text)
    (done : List Block) (lines : List Text) : Prop where
  kept : template.Sublist lines
  block : ∀ b ∈ done.filter (·.tag.placement = .afterMarker), (b.lines c mode comment).Sublist lines
  perm : lines.Perm
    (template ++ (done.filter (·.tag.placement = .afterMarker)).flatMap (Block.lines c mode comment))

namespace Conserved

variable {c : Catalog} {mode : Mode} {comment : Text} {template lines : List Text}
  {done : List Block} {b : Block}

theorem dependency (h : Conserved c mode comment template done lines)
    (hb : b.tag = .buildDependency) : Conserved c mode comment template (done ++ [b]) lines := by
  have hfilter : (done ++ [b]).filter (·.tag.placement = .afterMarker) =
      done.filter (·.tag.placement = .afterMarker) := by
    simp [hb, Tag.placement]
  exact ⟨h.kept, by rw [hfilter]; exact h.block, by rw [hfilter]; exact h.perm⟩

theorem insert {above below : List Text} {line : Text} (hb : b.tag ≠ .buildDependency)
    (h : Conserved c mode comment template done (above ++ line :: below)) :
    Conserved c mode comment template (done ++ [b])
      (above ++ line :: (b.lines c mode comment ++ below)) := by
  have hfilter : (done ++ [b]).filter (·.tag.placement = .afterMarker) =
      done.filter (·.tag.placement = .afterMarker) ++ [b] := by
    simp [(Tag.placement_eq_afterMarker_iff b.tag).mpr hb]
  have hold : (above ++ line :: below).Sublist
      (above ++ line :: (b.lines c mode comment ++ below)) :=
    ((List.sublist_append_right _ below).cons_cons line).append_left above
  have hnew : (b.lines c mode comment).Sublist
      (above ++ line :: (b.lines c mode comment ++ below)) :=
    ((List.sublist_append_left _ below).cons line).trans (List.sublist_append_right above _)
  refine ⟨h.kept.trans hold, ?_, ?_⟩
  · intro x hx
    rw [hfilter, List.mem_append, List.mem_singleton] at hx
    rcases hx with hx | rfl
    · exact (h.block x hx).trans hold
    · exact hnew
  · rw [hfilter, List.flatMap_append, List.flatMap_singleton, ← List.append_assoc]
    have hmove : (above ++ line :: (b.lines c mode comment ++ below)).Perm
        ((above ++ line :: below) ++ b.lines c mode comment) := by
      rw [List.append_assoc, List.cons_append]
      exact (List.perm_append_comm.cons line).append_left above
    exact hmove.trans (h.perm.append_right _)

end Conserved

namespace Drafts

theorem conserved_step {c : Catalog} (mode : Mode) (comment : Text) {template : List Text}
    {ds : Drafts} {done : List Block} (h : Conserved c mode comment template done ds.config.lines)
    {b : Block} (hp : b.payloads ≠ []) :
    ((ds.spliceBlock c mode comment b).2 = none →
      Conserved c mode comment template (done ++ [b]) (ds.spliceBlock c mode comment b).1.config.lines) ∧
    ((ds.spliceBlock c mode comment b).2 ≠ none →
      (ds.spliceBlock c mode comment b).1.config = ds.config) := by
  by_cases hb : b.tag = .buildDependency
  · rw [spliceBlock_dependency ds hb]
    exact ⟨fun _ => h.dependency hb, fun _ => rfl⟩
  rw [spliceBlock_config ds hb]
  rcases ds.config.splice_cases (c.placement_rule hb) mode comment b.extension b.payloads with
    ⟨hnil, -⟩ | ⟨above, line, below, hsplit, -, hs⟩ | ⟨-, -, hs⟩
  · exact absurd hnil hp
  · rw [hs]
    rw [hsplit.lines_eq] at h
    exact ⟨fun _ => h.insert hb, fun hne => absurd rfl hne⟩
  · rw [hs]
    exact ⟨fun hne => absurd hne (by simp), fun _ => rfl⟩

theorem conserved_run (c : Catalog) (mode : Mode) (comment : Text) (start : Drafts)
    {blocks : List Block} (hp : ∀ b ∈ blocks, b.payloads ≠ []) :
    Conserved c mode comment start.config.lines (start.completed c mode comment blocks)
      (start.spliceBlocks c mode comment blocks).1.config.lines := by
  let P (ds : Drafts) (done : List Block) : Prop :=
    Conserved c mode comment start.config.lines done ds.config.lines
  have step : ∀ ds done, ∀ b ∈ blocks, P ds done → (ds.spliceBlock c mode comment b).2 = none →
      P (ds.spliceBlock c mode comment b).1 (done ++ [b]) :=
    fun ds done b hb hP => (conserved_step mode comment hP (hp b hb)).1
  have refuse : ∀ ds done, ∀ b ∈ blocks, P ds done → (ds.spliceBlock c mode comment b).2 ≠ none →
      P (ds.spliceBlock c mode comment b).1 done := by
    intro ds done b hb hP hs
    show Conserved c mode comment start.config.lines done _
    rw [(conserved_step mode comment hP (hp b hb)).2 hs]
    exact hP
  have hstart : P start [] := ⟨List.Sublist.refl _, by simp, by simp⟩
  exact (run_invariant c mode comment blocks step refuse hstart).1

/-- However a run ends, whatever its payloads look like: the lines of the template are all there in
their order, so are those of every block that the run completed, and there are no others. If it comes
through, it reports the number of payloads of every source and tag that has any. -/
theorem config_conserved_of_splice (manifest : Draft) (path : Path) (template : Text) (c : Catalog)
    (mode : Mode) (comment : Text) (sources : List Source) :
    let start : Drafts := ⟨manifest, .ofTemplate path template⟩
    let final := start.splice c mode comment (sources.map Source.scan)
    let blocks := sources.flatMap Source.blocks
    let done := start.completed c mode comment blocks
    let placed := done.filter (·.tag.placement = .afterMarker)
    template.lines.Sublist final.1.config.lines ∧
    (∀ b ∈ placed, (b.lines c mode comment).Sublist final.1.config.lines) ∧
    final.1.config.lines.Perm (template.lines ++ placed.flatMap (Block.lines c mode comment)) ∧
    final.1.config.lines.length =
      template.lines.length + (placed.map (·.payloads.length + 1)).sum ∧
    done <+: blocks ∧
    match final.2 with
    | .ok contributions =>
      done = blocks ∧ contributions = sources.flatMap fun s =>
        (Tag.all.filter (s.payloads · ≠ [])).map fun tag =>
          ⟨s.file.stem, tag, (s.payloads tag).length⟩
    | .error _ => done ≠ blocks := by
  intro start final blocks done placed
  have hfinal : final = _ := splice_scans start sources
  have hconserved : Conserved c mode comment template.lines done final.1.config.lines := by
    rw [hfinal]
    exact conserved_run c mode comment start fun _ hb => Source.payloads_ne_nil hb
  have hlength : final.1.config.lines.length =
      template.lines.length + (placed.map (·.payloads.length + 1)).sum := by
    rw [hconserved.perm.length_eq]
    simp [List.length_flatMap, Block.length_lines, placed]
  refine ⟨hconserved.kept, hconserved.block, hconserved.perm, hlength,
    completed_prefix start blocks, ?_⟩
  have hself : done = blocks ↔ (start.spliceBlocks c mode comment blocks).2 = none :=
    completed_eq_self_iff start blocks
  rw [hfinal]
  cases hrun : (start.spliceBlocks c mode comment blocks).2 with
  | none =>
    refine ⟨hself.mpr hrun, ?_⟩
    simp [List.map_flatMap, Source.blocks, Block.contribution, Function.comp_def]
  | some fault =>
    intro h
    rw [hself, hrun] at h; cases h

end Drafts
end TemplateSplice
