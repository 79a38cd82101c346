import Mathlib.Data.List.InsertIdx
import TemplateSplice.Proofs.Run

/-! Where the lines of a config come from. `trace` follows a run text by text: what is put on line `i`
brings its origin to place `i`, so the k-th origin is always that of the k-th line. `map_text?_origins`
says so of a run of any length, whatever its payloads look like: each line reads as its origin says. -/

namespace TemplateSplice

/-- A line of the template, or the heading of a block, or one of its payloads. Blocks are counted in
the order in which a run takes them, payloads in the order of their file. -/
inductive Origin where
  | template (line : Nat)
  | heading (block : Nat)
  | payload (block index : Nat)
  deriving DecidableEq, Repr

def Block.placed? (blocks : List Block) (n : Nat) : Option Block :=
  blocks[n]?.filter (·.tag ≠ .buildDependency)

/-- What a line of this origin reads, if the template and the blocks have such a line. -/
def Origin.text? (c : Catalog) (mode : Mode) (comment : Text) (template : List Text)
    (blocks : List Block) : Origin → Option Text
  | .template i => template[i]?
  | .heading n => (Block.placed? blocks n).map fun b => (c.rule b.tag).heading comment b.extension
  | .payload n i =>
    (Block.placed? blocks n).bind fun b => b.payloads[i]?.map ((c.rule b.tag).render mode)

/-- The texts of block `n`, each with its origin, in the order in which they are placed. -/
def Block.labelled (c : Catalog) (mode : Mode) (comment : Text) (n : Nat) (b : Block) :
    List (Origin × Text) :=
  b.payloads.zipIdx.reverse.map (fun p => (.payload n p.2, (c.rule b.tag).render mode p.1)) ++
    [(.heading n, (c.rule b.tag).heading comment b.extension)]

/-- Follows `placeAll`: each text brings its origin to where it lands. -/
def Draft.trace (d : Draft) (r : Rule) : List (Origin × Text) → List Origin → List Origin
  | [], origins => origins
  | (origin, text) :: rest, origins =>
    match d.place r.placement r.marker text with
    | (d, .line i) => d.trace r rest (origins.insertIdx i origin)
    | (_, .noMarker) | (_, .insideCharacter) => origins

namespace Drafts

/-- Follows `spliceBlocks` on the config. The first of the blocks is the n-th of the run. -/
def trace (c : Catalog) (mode : Mode) (comment : Text) (ds : Drafts) (n : Nat) :
    List Block → List Origin → List Origin
  | [], origins => origins
  | b :: rest, origins =>
    let traced :=
      if b.tag.target = .config ∧ b.payloads ≠ [] then
        ds.config.trace (c.rule b.tag) (b.labelled c mode comment n) origins
      else origins
    match ds.spliceBlock c mode comment b with
    | (ds, none) => trace c mode comment ds (n + 1) rest traced
    | (_, some _) => traced

def origins (c : Catalog) (mode : Mode) (comment : Text) (start : Drafts) (blocks : List Block) :
    List Origin :=
  start.trace c mode comment 0 blocks ((List.range start.config.lines.length).map .template)

end Drafts

section
variable {c : Catalog} {mode : Mode} {comment : Text} {b : Block} {n : Nat}

theorem Block.placed?_eq_some_iff {blocks : List Block} :
    Block.placed? blocks n = some b ↔ blocks[n]? = some b ∧ b.tag ≠ .buildDependency := by
  simp [placed?, Option.filter_eq_some_iff]

theorem Block.map_snd_labelled (hb : b.tag ≠ .buildDependency) :
    (b.labelled c mode comment n).map Prod.snd =
      Draft.placements (c.rule b.tag) mode comment b.extension b.payloads := by
  have hpayloads : b.payloads.reverse.map ((c.rule b.tag).render mode) =
      b.payloads.zipIdx.reverse.map fun p => (c.rule b.tag).render mode p.1 := by
    conv_lhs => rw [← List.zipIdx_map_fst 0 b.payloads, ← List.map_reverse, List.map_map]
    rfl
  rw [labelled, List.map_append, List.map_map, Draft.placements, hpayloads]
  simp [Rule.hasHeading, c.placement_rule hb, Function.comp_def]

theorem Block.map_fst_labelled :
    (b.labelled c mode comment n).map Prod.fst =
      (List.range' 0 b.payloads.length).reverse.map (.payload n) ++ [.heading n] := by
  rw [labelled, List.map_append, List.map_map, ← List.zipIdx_map_snd 0 b.payloads,
    ← List.map_reverse, List.map_map]
  rfl

theorem Block.text?_of_mem_labelled {template : List Text} {blocks : List Block}
    (hb : Block.placed? blocks n = some b) {p : Origin × Text} (hp : p ∈ b.labelled c mode comment n) :
    p.1.text? c mode comment template blocks = some p.2 := by
  rw [labelled, List.mem_append, List.mem_map, List.mem_singleton] at hp
  rcases hp with ⟨⟨payload, i⟩, hmem, rfl⟩ | rfl
  · have hpayload := List.mem_zipIdx_iff_getElem?.mp (List.mem_reverse.mp hmem)
    simp only [Origin.text?, hb, Option.bind_some, hpayload, Option.map_some]
  · simp only [Origin.text?, hb, Option.map_some]

end

namespace Draft

variable {r : Rule}

theorem trace_of_split (hr : r.placement = .afterMarker) {d : Draft} {line : Text}
    {above below : List Text} (h : Split .afterMarker r.marker d.lines above line below)
    (texts : List (Origin × Text)) (origins : List Origin) :
    d.trace r texts origins =
      (texts.map Prod.fst).foldl (fun os o => os.insertIdx (above.length + 1) o) origins := by
  induction texts generalizing d below origins with
  | nil => rfl
  | cons p rest ih =>
    obtain ⟨origin, text⟩ := p
    have hplace := insertAfterMarker_of_split h text
    have hnext : Split .afterMarker r.marker (above ++ line :: text :: below) above line
        (text :: below) := ⟨rfl, h.above, h.line⟩
    simp only [trace, hr, place, hplace]
    rw [ih (d := { d with lines := above ++ line :: text :: below }) hnext]
    rfl

/-- What a block does to the origins depends on its labels and on where its marker is found, and not on
its texts. -/
theorem trace_eq (hr : r.placement = .afterMarker) (d : Draft) (texts : List (Origin × Text))
    (origins : List Origin) :
    d.trace r texts origins =
      match d.findMarker? .afterMarker r.marker with
      | none => origins
      | some i => (texts.map Prod.fst).foldl (fun os o => os.insertIdx (i + 1) o) origins := by
  rcases split_or_none .afterMarker r.marker d.lines with ⟨above, line, below, hs⟩ | hnone
  · have hfind : d.findMarker? .afterMarker r.marker = some above.length := hs.findIdx?
    rw [trace_of_split hr hs, hfind]
  · have hfind : d.findMarker? .afterMarker r.marker = none := findMarker?_eq_none_iff.mpr hnone
    rw [hfind]
    cases texts with
    | nil => rfl
    | cons p rest => simp only [trace, hr, place_of_none hnone]

theorem map_trace (hr : r.placement = .afterMarker) (extension : Text) {f : Origin → Option Text}
    {d : Draft} {origins : List Origin} (h : origins.map f = d.lines.map some)
    (texts : List (Origin × Text)) (htexts : ∀ p ∈ texts, f p.1 = some p.2) :
    (d.trace r texts origins).map f =
      (d.placeAll r extension (texts.map Prod.snd)).1.lines.map some := by
  induction texts generalizing d origins with
  | nil => exact h
  | cons p rest ih =>
    obtain ⟨origin, text⟩ := p
    obtain ⟨hp, hrest⟩ := List.forall_mem_cons.mp htexts
    rcases split_or_none .afterMarker r.marker d.lines with ⟨above, line, below, hs⟩ | hnone
    · have hplace := insertAfterMarker_of_split hs text
      have hlines : (origins.insertIdx (above.length + 1) origin).map f =
          (above ++ line :: text :: below).map some := by
        have hinsert : (d.insertAfterMarker r.marker text).1.lines =
            d.lines.insertIdx (above.length + 1) text := by
          have hfind : d.findMarker? .afterMarker r.marker = some above.length := hs.findIdx?
          simp only [insertAfterMarker, hfind]
        rw [hplace] at hinsert
        simp only at hinsert hp
        rw [hinsert, List.map_insertIdx, List.map_insertIdx, h, hp]
      simp only [trace, hr, place, hplace, List.map_cons, placeAll]
      exact ih (d := { d with lines := above ++ line :: text :: below }) hlines hrest
    · have hplace : d.place r.placement r.marker text = (d, .noMarker) :=
        place_of_none (by rwa [hr]) text
      simpa only [trace, List.map_cons, placeAll, hplace] using h

end Draft

namespace Drafts

variable {c : Catalog} {mode : Mode} {comment : Text}

theorem map_trace_block {template : List Text} {blocks : List Block} {ds : Drafts} {b : Block} {n : Nat}
    {origins : List Origin} (hb : blocks[n]? = some b) (hp : b.payloads ≠ [])
    (h : origins.map (Origin.text? c mode comment template blocks) = ds.config.lines.map some) :
    (if b.tag.target = .config ∧ b.payloads ≠ [] then
        ds.config.trace (c.rule b.tag) (b.labelled c mode comment n) origins
      else origins).map (Origin.text? c mode comment template blocks) =
      (ds.spliceBlock c mode comment b).1.config.lines.map some := by
  by_cases hd : b.tag = .buildDependency
  · have htarget : b.tag.target ≠ .config := by rw [hd]; decide
    rw [if_neg fun hand => htarget hand.1, spliceBlock_dependency ds hd]
    exact h
  · rw [if_pos ⟨c.target_rule hd, hp⟩, spliceBlock_config ds hd,
      Draft.splice_eq_placeAll hp, ← Block.map_snd_labelled (n := n) hd]
    exact Draft.map_trace (c.placement_rule hd) b.extension h _
      fun p hmem => Block.text?_of_mem_labelled (Block.placed?_eq_some_iff.mpr ⟨hb, hd⟩) hmem

theorem map_trace_blocks {template : List Text} (before : List Block) {blocks : List Block}
    {ds : Drafts} {origins : List Origin} (hp : ∀ b ∈ blocks, b.payloads ≠ [])
    (h : origins.map (Origin.text? c mode comment template (before ++ blocks)) =
      ds.config.lines.map some) :
    (ds.trace c mode comment before.length blocks origins).map
        (Origin.text? c mode comment template (before ++ blocks)) =
      (ds.spliceBlocks c mode comment blocks).1.config.lines.map some := by
  induction blocks generalizing before ds origins with
  | nil => exact h
  | cons b rest ih =>
    obtain ⟨hb, hrest⟩ := List.forall_mem_cons.mp hp
    have hget : (before ++ b :: rest)[before.length]? = some b := by simp
    have hblock := map_trace_block hget hb h
    rw [trace, spliceBlocks_cons]
    rcases hs : ds.spliceBlock c mode comment b with ⟨next, _ | fault⟩
    · rw [hs, List.append_cons] at hblock
      have hnext := ih (before ++ [b]) hrest hblock
      rw [List.length_append, List.length_singleton, ← List.append_cons] at hnext
      exact hnext
    · rw [hs] at hblock
      exact hblock

/-- After a run, however it ends, the origins are those of the config's lines: there are as many, and
each line is the line of the template, the heading or the rendered payload that its origin names. -/
theorem map_text?_origins (c : Catalog) (mode : Mode) (comment : Text) (start : Drafts)
    {blocks : List Block} (hp : ∀ b ∈ blocks, b.payloads ≠ []) :
    (start.origins c mode comment blocks).map
        (Origin.text? c mode comment start.config.lines blocks) =
      (start.spliceBlocks c mode comment blocks).1.config.lines.map some := by
  refine map_trace_blocks [] hp ?_
  rw [List.map_map]
  apply List.ext_getElem?
  intro i
  by_cases hi : i < start.config.lines.length
  · simp [hi, Origin.text?]
  · simp [Nat.le_of_not_lt hi]

end Drafts
end TemplateSplice
