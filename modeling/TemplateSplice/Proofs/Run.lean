import TemplateSplice.Proofs.Placement

/-! Runs of blocks. A run splices what sources bring, block by block, until one is refused; `completed`
are the blocks that it gets through. `run_invariant` is the one induction over runs: what a block that
is spliced keeps, and one that is refused leaves alone, holds at the end, whether the run comes through
or not. -/

namespace TemplateSplice

/-- The text of an extension file, and the comment mark its tags stand behind. -/
structure Source where
  file : Path
  comment : Text
  content : Text
  deriving DecidableEq, Repr

namespace Source

def scan (s : Source) : Scan :=
  Scan.ofContent s.file s.comment s.content

def payloads (s : Source) (tag : Tag) : List Text :=
  Payload.extract tag.token s.comment s.content

/-- What a source brings: one block for each tag that it has payloads for, in catalog order. -/
def blocks (s : Source) : List Block :=
  (Tag.all.filter (s.payloads · ≠ [])).map fun tag => ⟨s.file.stem, tag, s.payloads tag⟩

theorem blocks_scan (s : Source) : s.scan.blocks = s.blocks := by
  rw [Scan.blocks, scan, Scan.payloads_ofContent, List.map_map]
  rfl

theorem flatMap_blocks_scan (sources : List Source) :
    (sources.map scan).flatMap Scan.blocks = sources.flatMap blocks := by
  rw [List.flatMap_map]
  exact congrArg (List.flatMap · sources) (funext blocks_scan)

theorem mem_blocks {s : Source} {b : Block} :
    b ∈ s.blocks ↔ s.payloads b.tag ≠ [] ∧ b = ⟨s.file.stem, b.tag, s.payloads b.tag⟩ := by
  rw [blocks, List.mem_map]
  constructor
  · rintro ⟨tag, htag, rfl⟩
    exact ⟨by simpa using (List.mem_filter.mp htag).2, rfl⟩
  · rintro ⟨htag, hb⟩
    exact ⟨b.tag, List.mem_filter.mpr ⟨b.tag.mem_all, by simpa using htag⟩, hb.symm⟩

theorem payloads_ne_nil {sources : List Source} {b : Block} (h : b ∈ sources.flatMap blocks) :
    b.payloads ≠ [] := by
  obtain ⟨s, -, hb⟩ := List.mem_flatMap.mp h
  obtain ⟨hne, heq⟩ := mem_blocks.mp hb
  rw [heq]; exact hne

end Source

def Block.lines (c : Catalog) (mode : Mode) (comment : Text) (b : Block) : List Text :=
  (c.rule b.tag).blockLines mode comment b.extension b.payloads

theorem Block.length_lines (c : Catalog) (mode : Mode) (comment : Text) (b : Block) :
    (b.lines c mode comment).length = b.payloads.length + 1 := by
  simp [lines, Rule.blockLines]

theorem Tag.placement_eq_afterMarker_iff (tag : Tag) :
    tag.placement = .afterMarker ↔ tag ≠ .buildDependency := by
  cases tag <;> decide

theorem Catalog.target_rule (c : Catalog) {tag : Tag} (h : tag ≠ .buildDependency) :
    (c.rule tag).target = .config := by
  cases tag with
  | buildDependency => exact absurd rfl h
  | _ => rfl

theorem Catalog.placement_rule (c : Catalog) {tag : Tag} (h : tag ≠ .buildDependency) :
    (c.rule tag).placement = .afterMarker := by
  cases tag with
  | buildDependency => exact absurd rfl h
  | _ => rfl

namespace Drafts

variable (c : Catalog) (mode : Mode) (comment : Text)

/-- The blocks that a run gets through: all of them, or those before the first that is refused. -/
def completed (ds : Drafts) : List Block → List Block
  | [] => []
  | b :: rest =>
    match ds.spliceBlock c mode comment b with
    | (ds, none) => b :: completed ds rest
    | (_, some _) => []

variable {c mode comment}

theorem spliceBlocks_cons (ds : Drafts) (b : Block) (rest : List Block) :
    ds.spliceBlocks c mode comment (b :: rest) =
      match ds.spliceBlock c mode comment b with
      | (ds, none) => ds.spliceBlocks c mode comment rest
      | (ds, some fault) => (ds, some fault) := rfl

theorem spliceBlocks_append (ds : Drafts) (first second : List Block) :
    ds.spliceBlocks c mode comment (first ++ second) =
      match ds.spliceBlocks c mode comment first with
      | (ds, none) => ds.spliceBlocks c mode comment second
      | (ds, some fault) => (ds, some fault) := by
  induction first generalizing ds with
  | nil => rfl
  | cons b rest ih =>
    rw [List.cons_append, spliceBlocks_cons, spliceBlocks_cons]
    rcases ds.spliceBlock c mode comment b with ⟨ds, _ | fault⟩
    · exact ih ds
    · rfl

theorem completed_prefix (ds : Drafts) (blocks : List Block) :
    ds.completed c mode comment blocks <+: blocks := by
  induction blocks generalizing ds with
  | nil => exact List.prefix_refl _
  | cons b rest ih =>
    rw [completed]
    rcases ds.spliceBlock c mode comment b with ⟨ds, _ | fault⟩
    · exact (List.prefix_cons_inj b).mpr (ih ds)
    · exact List.nil_prefix

theorem completed_eq_self_iff (ds : Drafts) (blocks : List Block) :
    ds.completed c mode comment blocks = blocks ↔
      (ds.spliceBlocks c mode comment blocks).2 = none := by
  induction blocks generalizing ds with
  | nil => simp [completed, spliceBlocks]
  | cons b rest ih =>
    rw [completed, spliceBlocks_cons]
    rcases ds.spliceBlock c mode comment b with ⟨ds, _ | fault⟩
    · simpa using ih ds
    · simp

/-- What is so at the start, is kept by each block that is spliced and not touched by one that is
refused, is so at the end; and a fault comes from a state in which it is so. -/
theorem run_invariant (c : Catalog) (mode : Mode) (comment : Text)
    {P : Drafts → List Block → Prop} (blocks : List Block)
    (step : ∀ ds done, ∀ b ∈ blocks, P ds done → (ds.spliceBlock c mode comment b).2 = none →
      P (ds.spliceBlock c mode comment b).1 (done ++ [b]))
    (refuse : ∀ ds done, ∀ b ∈ blocks, P ds done → (ds.spliceBlock c mode comment b).2 ≠ none →
      P (ds.spliceBlock c mode comment b).1 done)
    {ds : Drafts} {done : List Block} (start : P ds done) :
    P (ds.spliceBlocks c mode comment blocks).1 (done ++ ds.completed c mode comment blocks) ∧
      ∀ fault, (ds.spliceBlocks c mode comment blocks).2 = some fault →
        ∃ ds' done', ∃ b ∈ blocks, P ds' done' ∧
          (ds'.spliceBlock c mode comment b).2 = some fault := by
  induction blocks generalizing ds done with
  | nil => simpa [completed, spliceBlocks] using start
  | cons b rest ih =>
    have hb := List.mem_cons_self (a := b) (l := rest)
    have hstep := step ds done b hb start
    have hrefuse := refuse ds done b hb start
    rw [completed, spliceBlocks_cons]
    rcases hr : ds.spliceBlock c mode comment b with ⟨next, _ | fault⟩
    · rw [hr] at hstep
      obtain ⟨hend, hfault⟩ := ih
        (fun ds done b hb => step ds done b (List.mem_cons_of_mem _ hb))
        (fun ds done b hb => refuse ds done b (List.mem_cons_of_mem _ hb)) (hstep rfl)
      refine ⟨by simpa using hend, fun fault h => ?_⟩
      obtain ⟨ds', done', b', hb', hP, hf⟩ := hfault fault h
      exact ⟨ds', done', b', List.mem_cons_of_mem _ hb', hP, hf⟩
    · rw [hr] at hrefuse
      refine ⟨by simpa using hrefuse (by simp), fun f hf => ?_⟩
      exact ⟨ds, done, b, hb, start, by rw [hr]; exact hf⟩

theorem splice_scans (ds : Drafts) (sources : List Source) :
    ds.splice c mode comment (sources.map Source.scan) =
      ((ds.spliceBlocks c mode comment (sources.flatMap Source.blocks)).1,
        match (ds.spliceBlocks c mode comment (sources.flatMap Source.blocks)).2 with
        | none => .ok ((sources.flatMap Source.blocks).map Block.contribution)
        | some fault => .error fault) := by
  rw [splice, Source.flatMap_blocks_scan]
  rcases ds.spliceBlocks c mode comment (sources.flatMap Source.blocks) with ⟨ds', _ | fault⟩ <;> rfl

theorem splice_eq_ok_iff {ds : Drafts} {sources : List Source} {contributions : List Contribution} :
    (ds.splice c mode comment (sources.map Source.scan)).2 = .ok contributions ↔
      (ds.spliceBlocks c mode comment (sources.flatMap Source.blocks)).2 = none ∧
        contributions = (sources.flatMap Source.blocks).map Block.contribution := by
  rw [splice_scans]
  cases (ds.spliceBlocks c mode comment (sources.flatMap Source.blocks)).2 with
  | none => simp [eq_comm]
  | some fault => simp

theorem splice_eq_error_iff {ds : Drafts} {sources : List Source} {fault : Fault} :
    (ds.splice c mode comment (sources.map Source.scan)).2 = .error fault ↔
      (ds.spliceBlocks c mode comment (sources.flatMap Source.blocks)).2 = some fault := by
  rw [splice_scans]
  cases (ds.spliceBlocks c mode comment (sources.flatMap Source.blocks)).2 with
  | none => simp
  | some f => simp

/-! Dependencies are added to the manifest and everything else goes below a marker of the config. -/

theorem spliceBlock_dependency (ds : Drafts) {b : Block} (h : b.tag = .buildDependency) :
    ds.spliceBlock c mode comment b =
      ({ ds with manifest := (ds.manifest.splice (c.rule .buildDependency) mode comment b.extension
          b.payloads).1 },
        (ds.manifest.splice (c.rule .buildDependency) mode comment b.extension b.payloads).2) := by
  simp only [spliceBlock, h]
  rfl

theorem spliceBlock_config (ds : Drafts) {b : Block} (h : b.tag ≠ .buildDependency) :
    ds.spliceBlock c mode comment b =
      ({ ds with config := (ds.config.splice (c.rule b.tag) mode comment b.extension
          b.payloads).1 },
        (ds.config.splice (c.rule b.tag) mode comment b.extension b.payloads).2) := by
  simp only [spliceBlock, c.target_rule h]
  rfl

theorem path_spliceBlock (ds : Drafts) (b : Block) :
    (ds.spliceBlock c mode comment b).1.manifest.path = ds.manifest.path ∧
      (ds.spliceBlock c mode comment b).1.config.path = ds.config.path := by
  by_cases hb : b.tag = .buildDependency
  · rw [spliceBlock_dependency ds hb]
    exact ⟨Draft.path_splice .., rfl⟩
  · rw [spliceBlock_config ds hb]
    exact ⟨rfl, Draft.path_splice ..⟩

theorem path_spliceBlocks (ds : Drafts) (blocks : List Block) :
    (ds.spliceBlocks c mode comment blocks).1.manifest.path = ds.manifest.path ∧
      (ds.spliceBlocks c mode comment blocks).1.config.path = ds.config.path := by
  induction blocks generalizing ds with
  | nil => exact ⟨rfl, rfl⟩
  | cons b rest ih =>
    have hb := @path_spliceBlock c mode comment ds b
    rw [spliceBlocks_cons]
    rcases hr : ds.spliceBlock c mode comment b with ⟨next, _ | fault⟩
    · rw [hr] at hb
      exact ⟨(ih next).1.trans hb.1, (ih next).2.trans hb.2⟩
    · rwa [hr] at hb

theorem path_splice (ds : Drafts) (scans : List Scan) :
    (ds.splice c mode comment scans).1.manifest.path = ds.manifest.path ∧
      (ds.splice c mode comment scans).1.config.path = ds.config.path := by
  have h := @path_spliceBlocks c mode comment ds (scans.flatMap Scan.blocks)
  rw [splice]
  rcases hr : ds.spliceBlocks c mode comment (scans.flatMap Scan.blocks) with ⟨final, _ | fault⟩
  · rwa [hr] at h
  · rwa [hr] at h

end Drafts
end TemplateSplice
