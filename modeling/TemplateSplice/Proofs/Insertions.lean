import TemplateSplice.Proofs.Weave

/-! Lines that are put below markers one by one. As long as no text can be taken for the marker of
another, what comes of it does not depend on how the insertions for different markers are interleaved:
each stands below the line that is its marker in the template, the latest on top, and an insertion
whose marker the template lacks does nothing. -/

namespace TemplateSplice

/-- A text to be put below a marker as a line of its own. -/
structure Insertion where
  marker : Text
  text : Text
  deriving DecidableEq, Repr

namespace Insertion

def below (insertions : List Insertion) (marker : Text) : List Text :=
  (insertions.filter (·.marker = marker)).reverse.map (·.text)

/-- No text is, once trimmed, a marker that something else is put below. -/
def Distinct (insertions : List Insertion) : Prop :=
  ∀ i ∈ insertions, ∀ j ∈ insertions, j.marker ≠ i.marker → Text.trim i.text ≠ j.marker

instance (insertions : List Insertion) : Decidable (Distinct insertions) := by
  unfold Distinct; infer_instance

variable {done insertions : List Insertion} {i : Insertion}

theorem below_append_singleton (done : List Insertion) (i : Insertion) :
    below (done ++ [i]) =
      Function.update (below done) i.marker ([i.text] ++ below done i.marker) := by
  funext marker
  by_cases hm : marker = i.marker
  · subst hm
    rw [Function.update_self]
    simp [below]
  · rw [Function.update_of_ne hm]
    simp [below, Ne.symm hm]

theorem Distinct.apart (h : Distinct insertions) (hdone : done ⊆ insertions) (hi : i ∈ insertions) :
    Apart (below done) i.marker := by
  intro other hother text htext
  obtain ⟨j, hj, rfl⟩ := List.mem_map.mp htext
  obtain ⟨hmem, hmarker⟩ := List.mem_filter.mp (List.mem_reverse.mp hj)
  obtain rfl := of_decide_eq_true hmarker
  exact h j (hdone hmem) i hi hother.symm

end Insertion

namespace Draft

open Insertion

def insertAll (d : Draft) (insertions : List Insertion) : Draft :=
  insertions.foldl (fun d i => (d.insertAfterMarker i.marker i.text).1) d

/-- The draft with insertions woven into its lines. -/
def woven (d : Draft) (insertions : List Insertion) : Draft :=
  { d with lines := weave (below insertions) d.lines }

variable {d : Draft} {done insertions : List Insertion} {i : Insertion}

theorem woven_nil (d : Draft) : d.woven [] = d := by
  have hbelow : below [] = fun _ => [] := rfl
  rw [woven, hbelow, weave_nothing]

theorem insertAfterMarker_woven_of_none (hq : Apart (below done) i.marker)
    (h : ∀ line ∈ d.lines, Placement.accepts .afterMarker i.marker line = false) :
    (d.woven done).insertAfterMarker i.marker i.text = (d.woven done, .noMarker) ∧
      d.woven (done ++ [i]) = d.woven done := by
  constructor
  · exact place_of_none (p := .afterMarker) (weave_of_none hq h) i.text
  · -- what stands below this marker is nowhere to be seen
    have hsame : ∀ line ∈ d.lines,
        below (done ++ [i]) (Text.trim line) = below done (Text.trim line) := by
      intro line hline
      rw [below_append_singleton, Function.update_of_ne (accepts_afterMarker_eq_false.mp (h line hline))]
    rw [woven, weave_congr hsame, woven]

theorem insertAfterMarker_woven_of_split (hq : Apart (below done) i.marker) {above rest : List Text}
    {line : Text} (h : Split .afterMarker i.marker d.lines above line rest) :
    (∃ rest', (d.woven done).lines = weave (below done) above ++ line :: rest') ∧
      (d.woven done).insertAfterMarker i.marker i.text =
        (d.woven (done ++ [i]), .line ((weave (below done) above).length + 1)) := by
  obtain ⟨rest', hsplit, hnew⟩ := weave_of_split hq h
  refine ⟨⟨rest', hsplit.lines_eq⟩, ?_⟩
  rw [insertAfterMarker_of_split (d := d.woven done) hsplit, woven, woven, below_append_singleton, hnew]
  rfl

theorem noMarker_woven_iff (hq : Apart (below done) i.marker) :
    ((d.woven done).insertAfterMarker i.marker i.text).2 = .noMarker ↔
      ∀ line ∈ d.lines, Text.trim line ≠ i.marker := by
  simp only [← accepts_afterMarker_eq_false]
  constructor
  · intro hresult
    rcases split_or_none .afterMarker i.marker d.lines with ⟨above, line, rest, hsplit⟩ | hnone
    · rw [(insertAfterMarker_woven_of_split hq hsplit).2] at hresult
      cases hresult
    · exact hnone
  · intro hnone
    rw [(insertAfterMarker_woven_of_none hq hnone).1]

/-- An insertion is woven in, whatever has been inserted before. -/
theorem insertAfterMarker_woven (hq : Apart (below done) i.marker) :
    ((d.woven done).insertAfterMarker i.marker i.text).1 = d.woven (done ++ [i]) := by
  rcases split_or_none .afterMarker i.marker d.lines with ⟨above, line, rest, h⟩ | hnone
  · rw [(insertAfterMarker_woven_of_split hq h).2]
  · obtain ⟨hinsert, hsame⟩ := insertAfterMarker_woven_of_none hq hnone
    rw [hinsert, hsame]

theorem insertAll_woven (hq : Distinct (done ++ insertions)) :
    (d.woven done).insertAll insertions = d.woven (done ++ insertions) := by
  induction insertions generalizing done with
  | nil => rw [List.append_nil]; rfl
  | cons i rest ih =>
    have hstep : ((d.woven done).insertAfterMarker i.marker i.text).1 = d.woven (done ++ [i]) :=
      insertAfterMarker_woven (hq.apart (by simp) (by simp))
    rw [List.append_cons] at hq ⊢
    rw [← ih hq, ← hstep]
    rfl

theorem insertAll_eq_woven (h : Distinct insertions) : d.insertAll insertions = d.woven insertions := by
  have hrun : (d.woven []).insertAll insertions = d.woven ([] ++ insertions) :=
    insertAll_woven (by simpa using h)
  rwa [woven_nil, List.nil_append] at hrun

theorem distinct_of_filter {other : List Insertion} (h : Distinct insertions)
    (hsame : ∀ marker, other.filter (·.marker = marker) = insertions.filter (·.marker = marker)) :
    Distinct other := by
  have hsub : other ⊆ insertions := by
    intro i hi
    have hfilter : i ∈ other.filter (·.marker = i.marker) := List.mem_filter.mpr ⟨hi, by simp⟩
    rw [hsame] at hfilter
    exact (List.mem_filter.mp hfilter).1
  exact fun i hi j hj => h i (hsub hi) j (hsub hj)

/-- What insertions make of a template. One of them fails, and leaves all as it is, exactly if the
template has no line that is its marker; otherwise its text comes to stand right below that line, where
this has got to by then. In the end each marker is followed by its own texts, the latest on top, so
only the order of the insertions below one marker shows. -/
theorem lines_of_insertions (path : Path) (template : Text) (insertions : List Insertion)
    (h : Distinct insertions) :
    let start := ofTemplate path template
    (∀ before i after, insertions = before ++ i :: after →
      let d := start.insertAll before
      let result := d.insertAfterMarker i.marker i.text
      (result.2 = .noMarker ↔ ∀ line ∈ template.lines, Text.trim line ≠ i.marker) ∧
      (result.2 = .noMarker → result.1 = d) ∧
      ∀ above line rest, template.lines = above ++ line :: rest →
        (∀ x ∈ above, Text.trim x ≠ i.marker) → Text.trim line = i.marker →
        (∃ rest', d.lines = weave (below before) above ++ line :: rest') ∧
        result.2 = .line ((weave (below before) above).length + 1)) ∧
    start.insertAll insertions = { start with lines := weave (below insertions) template.lines } ∧
    ∀ other : List Insertion,
      (∀ marker, other.filter (·.marker = marker) = insertions.filter (·.marker = marker)) →
      start.insertAll other = start.insertAll insertions := by
  intro start
  refine ⟨?_, insertAll_eq_woven h, ?_⟩
  · intro before i after hi
    rw [hi] at h
    have hq : Apart (below before) i.marker := h.apart (by simp) (by simp)
    have hbefore : Distinct before := fun j hj k hk => h j (by simp [hj]) k (by simp [hk])
    have hd : start.insertAll before = start.woven before := insertAll_eq_woven hbefore
    simp only [hd]
    have hiff : ((start.woven before).insertAfterMarker i.marker i.text).2 = .noMarker ↔
        ∀ line ∈ template.lines, Text.trim line ≠ i.marker := noMarker_woven_iff hq
    refine ⟨hiff, fun hresult => ?_, ?_⟩
    · have hnone : ∀ line ∈ start.lines, Placement.accepts .afterMarker i.marker line = false :=
        fun line hline => accepts_afterMarker_eq_false.mpr (hiff.mp hresult line hline)
      rw [(insertAfterMarker_woven_of_none hq hnone).1]
    · intro above line rest hlines habove hline
      have hsplit : Split .afterMarker i.marker start.lines above line rest :=
        ⟨hlines, fun x hx => accepts_afterMarker_eq_false.mpr (habove x hx), accepts_afterMarker.mpr hline⟩
      obtain ⟨hstands, hinsert⟩ := insertAfterMarker_woven_of_split hq hsplit
      exact ⟨hstands, by rw [hinsert]⟩
  · intro other hsame
    have hbelow : below other = below insertions := by
      funext marker
      rw [below, hsame, below]
    rw [insertAll_eq_woven h, insertAll_eq_woven (distinct_of_filter h hsame), woven, woven, hbelow]

theorem lines_of_sample_insertions :
    let start := ofTemplate "Config.hs".toList "p\n q\np\n\n".toList
    let insertions : List Insertion :=
      [⟨['p'], "p ".toList⟩, ⟨['q'], ['b']⟩, ⟨[], ['c']⟩, ⟨['p'], ['a']⟩, ⟨['r'], ['d']⟩]
    Distinct insertions ∧
      (start.insertAll insertions).lines =
        [['p'], ['a'], "p ".toList, " q".toList, ['b'], ['p'], [], ['c']] ∧
      start.insertAll [⟨[], ['c']⟩, ⟨['p'], "p ".toList⟩, ⟨['p'], ['a']⟩, ⟨['r'], ['d']⟩, ⟨['q'], ['b']⟩] =
        start.insertAll insertions := by
  intro start insertions
  have hdistinct : Distinct insertions := by decide +kernel
  obtain ⟨-, hlines, horder⟩ :=
    lines_of_insertions "Config.hs".toList "p\n q\np\n\n".toList insertions hdistinct
  refine ⟨hdistinct, ?_, horder _ fun marker => ?_⟩
  · rw [hlines]
    decide +kernel
  · simp only [insertions, List.filter_cons, List.filter_nil]
    grind

end Draft
end TemplateSplice
