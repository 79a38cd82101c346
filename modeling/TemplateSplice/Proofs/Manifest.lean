import TemplateSplice.Proofs.Field
import TemplateSplice.Proofs.Run

/-! The manifest of a run. Only dependencies are written to it, all under one marker, so at any time
it is the template's draft grown by the dependencies spliced so far. -/

namespace TemplateSplice

/-- The texts that dependencies add to their field. Blocks are added last first, payloads of one block
in their order. -/
def Catalog.additions (c : Catalog) (blocks : List Block) : List Text :=
  (blocks.filter (·.tag = .buildDependency)).reverse.flatMap fun b => b.payloads.map fun payload =>
    (c.rule .buildDependency).indent ++ (c.rule .buildDependency).activePrefix ++ payload

namespace Catalog

theorem render_dependency (c : Catalog) (mode : Mode) (payload : Text) :
    (c.rule .buildDependency).render mode payload =
      (c.rule .buildDependency).indent ++ (c.rule .buildDependency).activePrefix ++ payload := rfl

theorem additions_dependency (c : Catalog) (done : List Block) {b : Block}
    (h : b.tag = .buildDependency) (mode : Mode) :
    c.additions (done ++ [b]) =
      b.payloads.map ((c.rule .buildDependency).render mode) ++ c.additions done := by
  have hrender : (c.rule .buildDependency).render mode = fun payload =>
      (c.rule .buildDependency).indent ++ (c.rule .buildDependency).activePrefix ++ payload :=
    funext (c.render_dependency mode)
  simp [additions, h, hrender]

theorem additions_config (c : Catalog) (done : List Block) {b : Block}
    (h : b.tag ≠ .buildDependency) : c.additions (done ++ [b]) = c.additions done := by
  simp [additions, h]

end Catalog

/-- A manifest once `done` has been spliced into the draft `start`. -/
structure Draft.ManifestAfter (c : Catalog) (start : Draft) (done : List Block) (manifest : Draft) :
    Prop where
  eq_grown : manifest = start.grown (c.rule .buildDependency).marker (c.additions done)
  additions_eq_nil :
    (∀ line ∈ start.lines,
      Placement.accepts .fieldAppend (c.rule .buildDependency).marker line = false) →
    c.additions done = []

namespace Draft.ManifestAfter

variable {c : Catalog} {start manifest : Draft} {done : List Block}

theorem of_none (h : start.ManifestAfter c done manifest)
    (hnone : ∀ line ∈ start.lines,
      Placement.accepts .fieldAppend (c.rule .buildDependency).marker line = false) :
    manifest = start ∧ c.additions done = [] := by
  refine ⟨?_, h.additions_eq_nil hnone⟩
  rw [h.eq_grown, Draft.grown_of_none hnone]

theorem splice_of_none (h : start.ManifestAfter c done manifest)
    (hnone : ∀ line ∈ start.lines,
      Placement.accepts .fieldAppend (c.rule .buildDependency).marker line = false)
    {b : Block} (hp : b.payloads ≠ []) (mode : Mode) (comment : Text) :
    manifest.splice (c.rule .buildDependency) mode comment b.extension b.payloads =
      (manifest, some (.missingMarker .buildDependency (c.rule .buildDependency).marker start.path
        b.extension)) := by
  rw [(h.of_none hnone).1, Draft.splice_of_none hp hnone]
  rfl

variable {line : Text} {above below : List Text}

theorem of_split (h : start.ManifestAfter c done manifest) (hd : start.anchors = [])
    (hsplit : Split .fieldAppend (c.rule .buildDependency).marker start.lines above line below) :
    manifest.lines = above ++ Text.grow (c.additions done).flatten line :: below ∧
      manifest.anchors = if c.additions done = [] then []
        else [((c.rule .buildDependency).marker, Text.byteLength (Text.trimEnd line))] := by
  rw [h.eq_grown]
  refine ⟨Draft.lines_grown hsplit _, ?_⟩
  cases c.additions done with
  | nil => exact hd
  | cons text texts => rw [Draft.grown_of_split hsplit]; rfl

theorem splice_of_split (h : start.ManifestAfter c done manifest) (hd : start.anchors = [])
    (hsplit : Split .fieldAppend (c.rule .buildDependency).marker start.lines above line below)
    {b : Block} (hb : b.tag = .buildDependency) (mode : Mode) (comment : Text) :
    (manifest.splice (c.rule .buildDependency) mode comment b.extension b.payloads).2 = none ∧
      start.ManifestAfter c (done ++ [b])
        (manifest.splice (c.rule .buildDependency) mode comment b.extension b.payloads).1 := by
  rw [h.eq_grown, Draft.splice_grown rfl hd hsplit, ← c.additions_dependency done hb mode]
  refine ⟨rfl, rfl, fun hno => ?_⟩
  have hline := hno line (by rw [hsplit.lines_eq]; simp)
  rw [hsplit.line] at hline; cases hline

theorem config (h : start.ManifestAfter c done manifest) {b : Block}
    (hb : b.tag ≠ .buildDependency) : start.ManifestAfter c (done ++ [b]) manifest := by
  refine ⟨?_, ?_⟩
  · rw [c.additions_config done hb]; exact h.eq_grown
  · rw [c.additions_config done hb]; exact h.additions_eq_nil

end Draft.ManifestAfter

namespace Drafts

/-- What one block does to the manifest: it is spliced and the manifest has grown by its dependencies,
if it brings any, or it is refused for want of its marker and the manifest stays as it is. -/
theorem manifest_step {c : Catalog} (mode : Mode) (comment : Text) {start : Draft}
    (hd : start.anchors = []) {ds : Drafts} {done : List Block}
    (h : start.ManifestAfter c done ds.manifest) {b : Block} (hp : b.payloads ≠ []) :
    ((ds.spliceBlock c mode comment b).2 = none ∧
      start.ManifestAfter c (done ++ [b]) (ds.spliceBlock c mode comment b).1.manifest) ∨
    (∃ path, (ds.spliceBlock c mode comment b).2 =
        some (.missingMarker b.tag (c.rule b.tag).marker path b.extension) ∧
      (ds.spliceBlock c mode comment b).1.manifest = ds.manifest) := by
  by_cases hb : b.tag = .buildDependency
  · rw [spliceBlock_dependency ds hb]
    rcases split_or_none .fieldAppend (c.rule .buildDependency).marker start.lines with
      ⟨above, line, below, hsplit⟩ | hnone
    · exact Or.inl (h.splice_of_split hd hsplit hb mode comment)
    · rw [h.splice_of_none hnone hp]
      exact Or.inr ⟨start.path, by rw [hb], rfl⟩
  · rw [spliceBlock_config ds hb]
    rcases ds.config.splice_cases (c.placement_rule hb) mode comment b.extension b.payloads with
      ⟨-, hs⟩ | ⟨above, line, below, -, -, hs⟩ | ⟨-, -, hs⟩
    · exact Or.inl ⟨by rw [hs], h.config hb⟩
    · exact Or.inl ⟨by rw [hs], h.config hb⟩
    · exact Or.inr ⟨ds.config.path, by rw [hs]; rfl, rfl⟩

theorem manifest_run (c : Catalog) (mode : Mode) (comment : Text) (start : Drafts)
    (hd : start.manifest.anchors = []) {blocks : List Block} (hp : ∀ b ∈ blocks, b.payloads ≠ []) :
    start.manifest.ManifestAfter c (start.completed c mode comment blocks)
      (start.spliceBlocks c mode comment blocks).1.manifest ∧
    ∀ fault, (start.spliceBlocks c mode comment blocks).2 = some fault →
      ∃ tag path extension, fault = .missingMarker tag (c.rule tag).marker path extension := by
  let P (ds : Drafts) (done : List Block) : Prop := start.manifest.ManifestAfter c done ds.manifest
  have step : ∀ ds done, ∀ b ∈ blocks, P ds done → (ds.spliceBlock c mode comment b).2 = none →
      P (ds.spliceBlock c mode comment b).1 (done ++ [b]) := by
    intro ds done b hb hP hs
    rcases manifest_step mode comment hd hP (hp b hb) with ⟨-, h⟩ | ⟨path, h, -⟩
    · exact h
    · rw [hs] at h; cases h
  have refuse : ∀ ds done, ∀ b ∈ blocks, P ds done → (ds.spliceBlock c mode comment b).2 ≠ none →
      P (ds.spliceBlock c mode comment b).1 done := by
    intro ds done b hb hP hs
    rcases manifest_step mode comment hd hP (hp b hb) with ⟨h, -⟩ | ⟨path, -, h⟩
    · exact absurd h hs
    · show start.manifest.ManifestAfter c done _
      rw [h]; exact hP
  have hstart : P start [] := ⟨rfl, fun _ => rfl⟩
  obtain ⟨hend, hfault⟩ := run_invariant c mode comment blocks step refuse hstart
  refine ⟨hend, fun fault h => ?_⟩
  obtain ⟨ds, done, b, hb, hP, hf⟩ := hfault fault h
  rcases manifest_step mode comment hd hP (hp b hb) with ⟨h, -⟩ | ⟨path, h, -⟩
  · rw [h] at hf; cases hf
  · rw [h] at hf
    exact ⟨b.tag, path, b.extension, (Option.some.inj hf).symm⟩

theorem getElem?_of_ne_length {above : List Text} (x y : Text) (below : List Text) {j : Nat}
    (h : j ≠ above.length) : (above ++ x :: below)[j]? = (above ++ y :: below)[j]? := by
  rcases Nat.lt_or_gt_of_ne h with hlt | hgt
  · rw [List.getElem?_append_left hlt, List.getElem?_append_left hlt]
  · obtain ⟨k, rfl⟩ : ∃ k, j = above.length + (k + 1) := ⟨j - above.length - 1, by omega⟩
    rw [List.getElem?_append_right (by omega), List.getElem?_append_right (by omega),
      Nat.add_sub_cancel_left]
    rfl

/-- What a run makes of its manifest, however it ends. No line is added or lost, and at most one is
changed: the first that begins with the marker of the dependencies. Its content is followed by the
dependencies that the run completed, and these by the blanks it ended in. The offset that is recorded
is where its content ends, and no addition meets a character's inside. -/
theorem manifest_of_splice (path : Path) (template : Text) (config : Draft) (c : Catalog)
    (mode : Mode) (comment : Text) (sources : List Source) :
    let start : Drafts := ⟨.ofTemplate path template, config⟩
    let final := start.splice c mode comment (sources.map Source.scan)
    let marker := (c.rule .buildDependency).marker
    let added := c.additions
      (start.completed c mode comment (sources.flatMap Source.blocks))
    (∀ marker target, final.2 ≠ .error (.anchorInsideCharacter marker target)) ∧
    final.1.manifest.lines.length = template.lines.length ∧
    match template.lines.findIdx? (fun line => marker.isPrefixOf (Text.trim line)) with
    | none => final.1.manifest.lines = template.lines ∧ final.1.manifest.anchors = [] ∧ added = []
    | some i =>
      (∀ j ≠ i, final.1.manifest.lines[j]? = template.lines[j]?) ∧
      ∃ line, template.lines[i]? = some line ∧
        final.1.manifest.lines[i]? =
          some (Text.trimEnd line ++ added.flatten ++ Text.trailing line) ∧
        final.1.manifest.anchors =
          if added = [] then [] else [(marker, Text.byteLength (Text.trimEnd line))] := by
  intro start final marker added
  obtain ⟨hafter, hfault⟩ := manifest_run c mode comment start rfl
    fun _ hb => Source.payloads_ne_nil hb
  have hfinal : final = _ := splice_scans start sources
  have hmanifest : start.manifest.ManifestAfter c
      (start.completed c mode comment (sources.flatMap Source.blocks)) final.1.manifest := by
    rw [hfinal]; exact hafter
  have hpanic : ∀ marker target, final.2 ≠ .error (.anchorInsideCharacter marker target) := by
    intro m t herr
    rw [hfinal] at herr
    cases hrun : (start.spliceBlocks c mode comment (sources.flatMap Source.blocks)).2 with
    | none => simp [hrun] at herr
    | some fault =>
      obtain ⟨tag, path, extension, rfl⟩ := hfault fault hrun
      simp [hrun] at herr
  refine ⟨hpanic, ?_⟩
  rcases split_or_none .fieldAppend marker template.lines with ⟨above, line, below, hsplit⟩ | hnone
  · have hfind : template.lines.findIdx? (fun line => marker.isPrefixOf (Text.trim line)) =
        some above.length := hsplit.findIdx?
    obtain ⟨hlines, hanchors⟩ := hmanifest.of_split rfl hsplit
    rw [hfind, hlines, hsplit.lines_eq]
    exact ⟨by simp, fun j hj => getElem?_of_ne_length _ _ below hj, line, by simp,
      by simp [Text.grow, added], hanchors⟩
  · have hfind : template.lines.findIdx? (fun line => marker.isPrefixOf (Text.trim line)) = none :=
      List.findIdx?_eq_none_iff.mpr hnone
    obtain ⟨hstart, hadded⟩ := hmanifest.of_none hnone
    rw [hfind, hstart]
    exact ⟨rfl, rfl, rfl, hadded⟩

end Drafts
end TemplateSplice
