import TemplateSplice.Proofs.Origin
import TemplateSplice.Proofs.WovenRun

/-! Two runs from the same templates. Their blocks are for the same extensions and tags and as long as
each other, and may differ in all else: in their payloads, or in the mode. If neither run inserts a text
that can be taken for the marker of another rule, the runs go through the same blocks, end in the same
way, and put line for line the same things into the config (`Woven.two_runs`). -/

namespace TemplateSplice

theorem findIdx?_weave_congr {below below' : Text → List Text} {marker : Text}
    (hlength : ∀ m, (below m).length = (below' m).length) (hq : Apart below marker)
    (hq' : Apart below' marker) (lines : List Text) :
    (weave below lines).findIdx? (Placement.accepts .afterMarker marker) =
      (weave below' lines).findIdx? (Placement.accepts .afterMarker marker) := by
  induction lines generalizing below below' with
  | nil => rfl
  | cons line rest ih =>
    by_cases hline : Placement.accepts .afterMarker marker line = true
    · simp only [weave, List.findIdx?_cons, hline, if_true]
    · have hother : Text.trim line ≠ marker := by
        rwa [accepts_afterMarker] at hline
      -- what stands right below this line is not the marker, so the search goes on after it
      have hskip {below : Text → List Text} (hq : Apart below marker) :
          (below (Text.trim line)).findIdx? (Placement.accepts .afterMarker marker) = none := by
        rw [List.findIdx?_eq_none_iff]
        intro x hx
        exact accepts_afterMarker_eq_false.mpr (hq _ hother x hx)
      have hupdate : ∀ m, (Function.update below (Text.trim line) [] m).length =
          (Function.update below' (Text.trim line) [] m).length := by
        intro m
        by_cases hm : m = Text.trim line
        · rw [hm, Function.update_self, Function.update_self]
        · rw [Function.update_of_ne hm, Function.update_of_ne hm, hlength]
      simp only [weave, List.findIdx?_cons, hline, List.findIdx?_append, hskip hq, hskip hq',
        Option.none_or, hlength, ih hupdate hq.update hq'.update]

theorem Catalog.length_below_congr (c : Catalog) (mode mode' : Mode) (comment : Text)
    {blocks blocks' : List Block} (h : blocks.map Block.contribution = blocks'.map Block.contribution)
    (marker : Text) :
    (c.below mode comment blocks marker).length = (c.below mode' comment blocks' marker).length := by
  have hlength (mode : Mode) (blocks : List Block) :
      (c.below mode comment blocks marker).length =
        (((blocks.map Block.contribution).filter fun k =>
          k.tag.placement = .afterMarker ∧ (c.rule k.tag).marker = marker).map (·.count + 1)).sum := by
    rw [below, List.length_flatMap, List.map_reverse, List.sum_reverse, List.filter_map, List.map_map]
    simp only [Block.length_lines, Function.comp_def, Block.contribution]
    rfl
  rw [hlength, hlength, h]

section
variable {c : Catalog} {mode mode' : Mode} {comment : Text} {start ds ds' : Drafts}
  {done done' blocks blocks' : List Block} {b b' : Block}

/-- One block, taken by each run on its own state: the origins change in the same way. -/
theorem Woven.trace_block_congr (h : Woven c mode comment start done ds)
    (h' : Woven c mode' comment start done' ds') (hq : NoImitation c mode comment done)
    (hq' : NoImitation c mode' comment done')
    (hdone : done.map Block.contribution = done'.map Block.contribution)
    (hb : b.contribution = b'.contribution) (n : Nat) (origins : List Origin)
    (htag : b.tag ≠ .buildDependency) :
    ds.config.trace (c.rule b.tag) (b.labelled c mode comment n) origins =
      ds'.config.trace (c.rule b'.tag) (b'.labelled c mode' comment n) origins := by
  obtain ⟨-, htags, hcount⟩ : b.extension = b'.extension ∧ b.tag = b'.tag ∧
      b.payloads.length = b'.payloads.length := by
    simpa [Block.contribution] using hb
  have hfind : ds.config.findMarker? .afterMarker (c.rule b.tag).marker =
      ds'.config.findMarker? .afterMarker (c.rule b.tag).marker := by
    unfold Draft.findMarker?
    rw [h.lines, h'.lines]
    refine findIdx?_weave_congr (fun m => ?_) (hq.apart htag) (hq'.apart htag) _
    exact c.length_below_congr mode mode' comment hdone m
  rw [← htags, Draft.trace_eq (c.placement_rule htag), Draft.trace_eq (c.placement_rule htag), hfind,
    Block.map_fst_labelled, Block.map_fst_labelled, hcount]

/-- Two runs over blocks of the same extensions, tags and lengths end in the same way, and the lines of
their configs have the same origins. -/
theorem Woven.two_runs (h : Woven c mode comment start done ds)
    (h' : Woven c mode' comment start done' ds') (hd : start.manifest.anchors = [])
    (hp : ∀ b ∈ blocks, b.payloads ≠ []) (hp' : ∀ b ∈ blocks', b.payloads ≠ [])
    (hq : NoImitation c mode comment (done ++ ds.completed c mode comment blocks))
    (hq' : NoImitation c mode' comment (done' ++ ds'.completed c mode' comment blocks'))
    (hdone : done.map Block.contribution = done'.map Block.contribution)
    (hblocks : blocks.map Block.contribution = blocks'.map Block.contribution) (n : Nat)
    (origins : List Origin) :
    (ds.spliceBlocks c mode comment blocks).2 = (ds'.spliceBlocks c mode' comment blocks').2 ∧
      ds.trace c mode comment n blocks origins = ds'.trace c mode' comment n blocks' origins := by
  induction blocks generalizing blocks' done done' ds ds' n origins with
  | nil =>
    obtain rfl : blocks' = [] := by simpa using hblocks.symm
    exact ⟨rfl, rfl⟩
  | cons b rest ih =>
    obtain ⟨b', rest', rfl⟩ : ∃ b' rest', blocks' = b' :: rest' := by
      cases blocks' with
      | nil => simp at hblocks
      | cons b' rest' => exact ⟨b', rest', rfl⟩
    rw [List.map_cons, List.map_cons, List.cons.injEq] at hblocks
    obtain ⟨hb, hrest⟩ := hblocks
    obtain ⟨hextension, htags, hcount⟩ : b.extension = b'.extension ∧ b.tag = b'.tag ∧
        b.payloads.length = b'.payloads.length := by
      simpa [Block.contribution] using hb
    obtain ⟨hpb, hprest⟩ := List.forall_mem_cons.mp hp
    obtain ⟨hpb', hprest'⟩ := List.forall_mem_cons.mp hp'
    have hqdone : NoImitation c mode comment done := hq.subset (List.subset_append_left _ _)
    have hqdone' : NoImitation c mode' comment done' := hq'.subset (List.subset_append_left _ _)
    have htrace : (if b.tag.target = .config ∧ b.payloads ≠ [] then
          ds.config.trace (c.rule b.tag) (b.labelled c mode comment n) origins else origins) =
        if b'.tag.target = .config ∧ b'.payloads ≠ [] then
          ds'.config.trace (c.rule b'.tag) (b'.labelled c mode' comment n) origins else origins := by
      by_cases htag : b.tag = .buildDependency
      · have htarget : Tag.buildDependency.target ≠ .config := by decide
        rw [if_neg fun hand => htarget (htag ▸ hand.1), if_neg fun hand => htarget (htag ▸ htags ▸ hand.1)]
      · rw [if_pos ⟨c.target_rule htag, hpb⟩, if_pos ⟨c.target_rule (htags ▸ htag), hpb'⟩]
        exact h.trace_block_congr h' hqdone hqdone' hdone hb n origins htag
    rw [Drafts.spliceBlocks_cons, Drafts.spliceBlocks_cons, Drafts.trace, Drafts.trace, htrace]
    by_cases ha : start.Anchored c b.tag
    · -- both take the block, and the runs go on in step
      obtain ⟨hok, hnext⟩ := h.spliceBlock_of_anchored hd hqdone hpb ha
      obtain ⟨hok', hnext'⟩ := h'.spliceBlock_of_anchored hd hqdone' hpb' (htags ▸ ha)
      rw [Drafts.completed] at hq hq'
      rcases hs : ds.spliceBlock c mode comment b with ⟨next, _ | fault⟩
      · rcases hs' : ds'.spliceBlock c mode' comment b' with ⟨next', _ | fault'⟩
        · simp only [hs] at hnext hq
          simp only [hs'] at hnext' hq'
          rw [List.append_cons] at hq hq'
          refine ih hnext hnext' hprest hprest' hq hq' ?_ hrest (n + 1) _
          rw [List.map_append, List.map_append, hdone, List.map_singleton, List.map_singleton, hb]
        · rw [hs'] at hok'; cases hok'
      · rw [hs] at hok; cases hok
    · -- both refuse it, for the same reason
      rw [h.spliceBlock_of_not_anchored hqdone hpb ha,
        h'.spliceBlock_of_not_anchored hqdone' hpb' (htags ▸ ha), htags, hextension]
      exact ⟨rfl, rfl⟩

end

end TemplateSplice
