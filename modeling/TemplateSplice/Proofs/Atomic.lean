import TemplateSplice.Proofs.Field

/-! One block, spliced or refused as a whole. Below a marker this holds in any state a draft may be in;
at the end of a field it holds as long as nothing else has been put into the draft, however many blocks
have gone into the field before. -/

namespace TemplateSplice

structure Splicing where
  rule : Rule
  mode : Mode
  comment : Text
  extension : Text
  payloads : List Text

def Splicing.texts (s : Splicing) : List Text :=
  s.payloads.map (s.rule.render s.mode)

namespace Draft

/-- Splices blocks one after the other, those that are refused being passed over. -/
def spliceAll (d : Draft) (splicings : List Splicing) : Draft :=
  splicings.foldl (fun d s => (d.splice s.rule s.mode s.comment s.extension s.payloads).1) d

section
variable {d start : Draft} {r : Rule} (mode : Mode) (comment extension : Text) (payloads : List Text)

theorem refused_of_splice
    (h : ∀ above line below, Split r.placement r.marker d.lines above line below →
      (d.splice r mode comment extension payloads).2 = none) :
    ((d.splice r mode comment extension payloads).2 ≠ none ↔
      payloads ≠ [] ∧ ∀ line ∈ d.lines, r.placement.accepts r.marker line = false) ∧
    ((d.splice r mode comment extension payloads).2 ≠ none →
      d.splice r mode comment extension payloads =
        (d, some (.missingMarker r.tag r.marker d.path extension))) := by
  have hrefused : (d.splice r mode comment extension payloads).2 ≠ none →
      payloads ≠ [] ∧ ∀ line ∈ d.lines, r.placement.accepts r.marker line = false := by
    intro hne
    refine ⟨fun hp => hne (by rw [hp, splice_nil]), ?_⟩
    rcases split_or_none r.placement r.marker d.lines with ⟨above, line, below, hsplit⟩ | hnone
    · exact absurd (h above line below hsplit) hne
    · exact hnone
  refine ⟨⟨hrefused, ?_⟩, fun hne => splice_of_none (hrefused hne).1 (hrefused hne).2 _ _ _⟩
  rintro ⟨hp, hnone⟩
  simp [splice_of_none hp hnone]

theorem splice_of_findIdx? (hr : r.placement = .afterMarker) (hp : payloads ≠ []) {i : Nat}
    (h : d.lines.findIdx? (Placement.accepts .afterMarker r.marker) = some i) :
    d.splice r mode comment extension payloads =
      ({ d with lines := d.lines.take (i + 1) ++ r.blockLines mode comment extension payloads ++
          d.lines.drop (i + 1) }, none) := by
  obtain ⟨above, line, below, hsplit, rfl⟩ := split_of_findIdx? h
  obtain ⟨htake, hdrop⟩ : d.lines.take (above.length + 1) = above ++ [line] ∧
      d.lines.drop (above.length + 1) = below := by
    rw [hsplit.lines_eq, List.append_cons]
    exact ⟨List.take_left' (by simp), List.drop_left' (by simp)⟩
  rw [splice_of_split hr hp hsplit, htake, hdrop]
  simp

theorem splice_grown_fst (hr : r.placement = .fieldAppend) (hd : start.anchors = [])
    (texts : List Text) :
    ((start.grown r.marker texts).splice r mode comment extension payloads).1 =
      start.grown r.marker (payloads.map (r.render mode) ++ texts) := by
  rcases split_or_none .fieldAppend r.marker start.lines with ⟨above, line, below, h⟩ | hnone
  · rw [splice_grown hr hd h]
  · rw [grown_of_none hnone, grown_of_none hnone]
    by_cases hp : payloads = []
    · rw [hp, splice_nil]
    · rw [splice_of_none hp (by rwa [hr])]

/-- A field that has grown is still the first that its marker finds, and it is found in the template. -/
theorem splice_grown_snd (hr : r.placement = .fieldAppend) (hd : start.anchors = [])
    {texts above below : List Text} {line : Text}
    (h : Split r.placement r.marker (start.grown r.marker texts).lines above line below) :
    ((start.grown r.marker texts).splice r mode comment extension payloads).2 = none := by
  rcases split_or_none .fieldAppend r.marker start.lines with ⟨above, line, below, hsplit⟩ | hnone
  · rw [splice_grown hr hd hsplit]
  · have hline := hnone line (by rw [← grown_of_none hnone texts, h.lines_eq]; simp)
    have haccepts := h.line
    rw [hr, hline] at haccepts
    cases haccepts

theorem spliceAll_grown (start : Draft) {marker : Text} (hd : start.anchors = []) (texts : List Text)
    {splicings : List Splicing}
    (h : ∀ s ∈ splicings, s.rule.placement = .fieldAppend ∧ s.rule.marker = marker) :
    (start.grown marker texts).spliceAll splicings =
      start.grown marker (splicings.reverse.flatMap Splicing.texts ++ texts) := by
  induction splicings generalizing texts with
  | nil => rfl
  | cons s rest ih =>
    obtain ⟨⟨hplacement, rfl⟩, hrest⟩ := List.forall_mem_cons.mp h
    have hstep := splice_grown_fst s.mode s.comment s.extension s.payloads hplacement hd texts
    rw [List.reverse_cons, List.flatMap_append, List.flatMap_singleton, List.append_assoc,
      ← ih (s.texts ++ texts) hrest, Splicing.texts, ← hstep]
    rfl

end

theorem grown_of_findIdx? (start : Draft) {marker line : Text} {i : Nat}
    (h : start.lines.findIdx? (Placement.accepts .fieldAppend marker) = some i)
    (hline : start.lines[i]? = some line) (texts : List Text) :
    start.grown marker texts = { start with
      lines := start.lines.set i (Text.grow texts.flatten line)
      anchors := if texts = [] then start.anchors
        else [(marker, Text.byteLength (Text.trimEnd line))] } := by
  obtain ⟨above, line', below, hsplit, rfl⟩ := split_of_findIdx? h
  obtain rfl : line' = line := by simpa [hsplit.lines_eq] using hline
  have hset (new : Text) : start.lines.set above.length new = above ++ new :: below := by
    rw [hsplit.lines_eq]; simp
  rw [hset]
  cases texts with
  | nil => simp [grown, Text.grow_nil, ← hsplit.lines_eq]
  | cons text texts => rw [grown_of_split hsplit, if_neg (List.cons_ne_nil _ _)]

/-- A block is spliced as a whole or refused, and if it is refused the draft is as it was. That is so for
a block that goes below a marker, in any draft whatsoever, and it then stands in one piece directly below
the first line that is the marker. It is so for a field in a template that has been added to under this
marker alone, and the payloads then stand in their order behind the content that the field had in the
template, before all that has been added to it earlier. -/
theorem block_of_splice (r : Rule) (mode : Mode) (comment extension : Text) (payloads : List Text) :
    (r.placement = .afterMarker → ∀ d : Draft,
      let result := d.splice r mode comment extension payloads
      (result.2 ≠ none ↔ payloads ≠ [] ∧ ∀ line ∈ d.lines, Text.trim line ≠ r.marker) ∧
      (result.2 ≠ none → result = (d, some (.missingMarker r.tag r.marker d.path extension))) ∧
      (payloads = [] → result = (d, none)) ∧
      ∀ i, d.lines.findIdx? (fun line => Text.trim line = r.marker) = some i → payloads ≠ [] →
        result = ({ d with
          lines := d.lines.take (i + 1) ++ r.heading comment extension ::
            payloads.map (r.render mode) ++ d.lines.drop (i + 1) }, none)) ∧
    (r.placement = .fieldAppend → ∀ (path : Path) (template : Text) (splicings : List Splicing),
      (∀ s ∈ splicings, s.rule.placement = .fieldAppend ∧ s.rule.marker = r.marker) →
      let d := (ofTemplate path template).spliceAll splicings
      let earlier := (splicings.reverse.flatMap Splicing.texts).flatten
      let result := d.splice r mode comment extension payloads
      (result.2 ≠ none ↔ payloads ≠ [] ∧ ∀ line ∈ d.lines, ¬ r.marker <+: Text.trim line) ∧
      (result.2 ≠ none → result = (d, some (.missingMarker r.tag r.marker d.path extension))) ∧
      (payloads = [] → result = (d, none)) ∧
      ∀ i line, template.lines.findIdx? (fun line => r.marker.isPrefixOf (Text.trim line)) = some i →
        template.lines[i]? = some line →
        d.lines = template.lines.set i (Text.trimEnd line ++ earlier ++ Text.trailing line) ∧
        (payloads ≠ [] → result = ({ d with
          lines := template.lines.set i (Text.trimEnd line ++
            ((payloads.map (r.render mode)).flatten ++ earlier) ++ Text.trailing line)
          anchors := [(r.marker, Text.byteLength (Text.trimEnd line))] }, none))) := by
  constructor
  · intro hr d
    obtain ⟨hiff, hsame⟩ := refused_of_splice (d := d) (r := r) mode comment extension payloads
      fun above line below hsplit => by
        by_cases hp : payloads = []
        · rw [hp, splice_nil]
        · rw [hr] at hsplit
          rw [splice_of_split hr hp hsplit]
    rw [hr] at hiff
    simp only [accepts_afterMarker_eq_false] at hiff
    exact ⟨hiff, hsame, fun hp => by rw [hp, splice_nil],
      fun i hi hp => splice_of_findIdx? mode comment extension payloads hr hp hi⟩
  · intro hr path template splicings hs d earlier
    have hd : d = (ofTemplate path template).grown r.marker
        (splicings.reverse.flatMap Splicing.texts) := by
      have hall := spliceAll_grown (ofTemplate path template) rfl [] hs
      rwa [List.append_nil] at hall
    obtain ⟨hiff, hsame⟩ := refused_of_splice (d := d) (r := r) mode comment extension payloads
      fun above line below hsplit => by
        rw [hd] at hsplit ⊢
        exact splice_grown_snd mode comment extension payloads hr rfl hsplit
    rw [hr] at hiff
    simp only [accepts_fieldAppend_eq_false] at hiff
    refine ⟨hiff, hsame, fun hp => by rw [hp, splice_nil], fun i line hi hline => ?_⟩
    have hgrown := grown_of_findIdx? (ofTemplate path template) hi hline
    refine ⟨by rw [hd, hgrown]; rfl, fun hp => ?_⟩
    obtain ⟨above, line', below, hsplit, -⟩ := split_of_findIdx? (p := .fieldAppend) hi
    have hne : payloads.map (r.render mode) ++ splicings.reverse.flatMap Splicing.texts ≠ [] := by
      simp [hp]
    rw [hd, splice_grown (d := ofTemplate path template) hr rfl hsplit, hgrown, hgrown, if_neg hne,
      List.flatten_append]
    rfl

theorem block_of_sample_splices :
    let field : Rule := Catalog.builtin.rule .buildDependency
    let definition : Rule := Catalog.builtin.rule .definition
    let manifest := ofTemplate "x.cabal".toList "a\nbuild-depends: base \n".toList
    let config := ofTemplate "Config.hs".toList
      "-- % Extension-provided definitions\nmain = x".toList
    let earlier : Splicing := ⟨field, .active, "--".toList, ['B'], [['p'], ['q']]⟩
    field.placement = .fieldAppend ∧ definition.placement = .afterMarker ∧
    ((manifest.spliceAll [earlier]).splice field .passive "--".toList ['A'] [['r']]).1.lines =
      [['a'], "build-depends: base, r, p, q ".toList] ∧
    (config.splice definition .active "--".toList ['A']
      ["-- % Extension-provided definitions".toList, "x = 1".toList]).1.lines =
      ["-- % Extension-provided definitions".toList, "--   For extension A:".toList,
        "-- % Extension-provided definitions".toList, "x = 1".toList, "main = x".toList] := by
  intro field definition manifest config earlier
  have hfield := (block_of_splice field .passive "--".toList ['A'] [['r']]).2 rfl "x.cabal".toList
    "a\nbuild-depends: base \n".toList [earlier] (by decide)
  have hdefinition := (block_of_splice definition .active "--".toList ['A']
    ["-- % Extension-provided definitions".toList, "x = 1".toList]).1 rfl config
  refine ⟨rfl, rfl, ?_, ?_⟩
  · rw [(hfield.2.2.2 1 "build-depends: base ".toList (by decide +kernel) (by decide +kernel)).2
      (by decide)]
    decide +kernel
  · rw [hdefinition.2.2.2 0 (by decide +kernel) (by decide)]
    decide +kernel

end Draft
end TemplateSplice
