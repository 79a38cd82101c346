import TemplateSplice.Splice

/-! Where one block lands. The first line that a marker accepts splits a draft in two (`Split`), and
what is placed below that line leaves the split as it was. So the line that the first text of a block
finds is found again by every later one, none of them can fail, and the block stands in one piece. -/

namespace TemplateSplice

theorem insertIdx_length_succ {α : Type} (above : List α) (x new : α) (below : List α) :
    (above ++ x :: below).insertIdx (above.length + 1) new = above ++ x :: new :: below := by
  induction above with
  | nil => rfl
  | cons y above ih => simpa using ih

theorem modify_length {α : Type} (f : α → α) (above : List α) (x : α) (below : List α) :
    (above ++ x :: below).modify above.length f = above ++ f x :: below := by
  induction above with
  | nil => rfl
  | cons y above ih => simpa using ih

/-- `line` is the first of `lines` that the marker accepts, `above` is what stands before it. -/
structure Split (p : Placement) (marker : Text) (lines above : List Text) (line : Text)
    (below : List Text) : Prop where
  lines_eq : lines = above ++ line :: below
  above : ∀ x ∈ above, p.accepts marker x = false
  line : p.accepts marker line = true

theorem accepts_afterMarker {marker line : Text} :
    Placement.accepts .afterMarker marker line = true ↔ Text.trim line = marker := by
  simp [Placement.accepts]

theorem accepts_afterMarker_eq_false {marker line : Text} :
    Placement.accepts .afterMarker marker line = false ↔ Text.trim line ≠ marker := by
  simp [Placement.accepts]

theorem accepts_fieldAppend {marker line : Text} :
    Placement.accepts .fieldAppend marker line = true ↔ marker <+: Text.trim line := by
  simp [Placement.accepts]

theorem accepts_fieldAppend_eq_false {marker line : Text} :
    Placement.accepts .fieldAppend marker line = false ↔ ¬ marker <+: Text.trim line := by
  rw [← accepts_fieldAppend, Bool.not_eq_true]

theorem Split.findIdx? {p : Placement} {marker line : Text} {lines above below : List Text}
    (h : Split p marker lines above line below) :
    lines.findIdx? (p.accepts marker) = some above.length := by
  obtain ⟨rfl, habove, hline⟩ := h
  rw [List.findIdx?_append, List.findIdx?_eq_none_iff.mpr habove]
  simp [List.findIdx?_cons, hline]

theorem split_or_none (p : Placement) (marker : Text) (lines : List Text) :
    (∃ above line below, Split p marker lines above line below) ∨
      ∀ line ∈ lines, p.accepts marker line = false := by
  cases h : lines.find? (p.accepts marker) with
  | none => right; simpa using h
  | some line =>
    obtain ⟨hline, above, below, hlines, habove⟩ := List.find?_eq_some_iff_append.mp h
    exact Or.inl ⟨above, line, below, hlines, by simpa using habove, hline⟩

theorem split_of_findIdx? {p : Placement} {marker : Text} {lines : List Text} {i : Nat}
    (h : lines.findIdx? (p.accepts marker) = some i) :
    ∃ above line below, Split p marker lines above line below ∧ i = above.length := by
  rcases split_or_none p marker lines with ⟨above, line, below, hsplit⟩ | hnone
  · rw [hsplit.findIdx?] at h
    exact ⟨above, line, below, hsplit, (Option.some.inj h).symm⟩
  · rw [List.findIdx?_eq_none_iff.mpr hnone] at h
    cases h

theorem split_of_accepts {p : Placement} {marker : Text} {lines : List Text}
    (h : ∃ line ∈ lines, p.accepts marker line = true) :
    ∃ above line below, Split p marker lines above line below := by
  rcases split_or_none p marker lines with hsplit | hnone
  · exact hsplit
  · obtain ⟨line, hline, haccepts⟩ := h
    rw [hnone line hline] at haccepts; cases haccepts

namespace Draft

theorem findMarker?_eq_none_iff {d : Draft} {p : Placement} {marker : Text} :
    d.findMarker? p marker = none ↔ ∀ line ∈ d.lines, p.accepts marker line = false :=
  List.findIdx?_eq_none_iff

theorem insertAfterMarker_of_split {d : Draft} {marker line : Text} {above below : List Text}
    (h : Split .afterMarker marker d.lines above line below) (text : Text) :
    d.insertAfterMarker marker text =
      ({ d with lines := above ++ line :: text :: below }, .line (above.length + 1)) := by
  have hfind : d.findMarker? .afterMarker marker = some above.length := h.findIdx?
  have hinsert : d.lines.insertIdx (above.length + 1) text = above ++ line :: text :: below := by
    rw [h.lines_eq, insertIdx_length_succ]
  simp only [insertAfterMarker, hfind, hinsert]

theorem place_of_none {d : Draft} {p : Placement} {marker : Text}
    (h : ∀ line ∈ d.lines, p.accepts marker line = false) (text : Text) :
    d.place p marker text = (d, .noMarker) := by
  have hfind : d.findMarker? p marker = none := findMarker?_eq_none_iff.mpr h
  cases p with
  | afterMarker => simp only [place, insertAfterMarker, hfind]
  | fieldAppend => simp only [place, appendToField, hfind]

/-- Texts placed below a marker one after the other stand there in reverse. -/
theorem placeAll_of_split {r : Rule} (hr : r.placement = .afterMarker) (extension : Text)
    {d : Draft} {line : Text} {above below : List Text}
    (h : Split .afterMarker r.marker d.lines above line below) (texts : List Text) :
    d.placeAll r extension texts =
      ({ d with lines := above ++ line :: (texts.reverse ++ below) }, none) := by
  induction texts generalizing d below with
  | nil => simp only [placeAll, List.reverse_nil, List.nil_append, ← h.lines_eq]
  | cons text rest ih =>
    have hplace := insertAfterMarker_of_split h text
    -- the same split, with the new text at the head of what stands below
    have hnext : Split .afterMarker r.marker (above ++ line :: text :: below) above line
        (text :: below) := ⟨rfl, h.above, h.line⟩
    simp only [placeAll, hr, place, hplace]
    rw [ih (d := { d with lines := above ++ line :: text :: below }) hnext]
    simp

/-- What is placed changes the lines and the anchors of a draft, not where it is to be written. -/
theorem path_place (d : Draft) (p : Placement) (marker text : Text) :
    (d.place p marker text).1.path = d.path := by
  cases p with
  | afterMarker =>
    simp only [place, insertAfterMarker]
    split <;> rfl
  | fieldAppend =>
    simp only [place, appendToField, recordAnchor]
    split
    · rfl
    · split <;> split <;> rfl

theorem path_placeAll (d : Draft) (r : Rule) (extension : Text) (texts : List Text) :
    (d.placeAll r extension texts).1.path = d.path := by
  induction texts generalizing d with
  | nil => rfl
  | cons text rest ih =>
    have hplace := path_place d r.placement r.marker text
    unfold placeAll
    split
    · next next _ hnext =>
      rw [hnext] at hplace
      exact (ih next).trans hplace
    · next next hnext => rwa [hnext] at hplace
    · next next hnext => rwa [hnext] at hplace

theorem path_splice (d : Draft) (r : Rule) (mode : Mode) (comment extension : Text)
    (payloads : List Text) : (d.splice r mode comment extension payloads).1.path = d.path := by
  unfold splice
  split
  · rfl
  · split
    · rfl
    · exact path_placeAll d r extension _

end Draft

namespace Rule

def blockLines (r : Rule) (mode : Mode) (comment extension : Text) (payloads : List Text) :
    List Text :=
  r.heading comment extension :: payloads.map (r.render mode)

theorem reverse_placements_afterMarker {r : Rule} (hr : r.placement = .afterMarker) (mode : Mode)
    (comment extension : Text) (payloads : List Text) :
    (Draft.placements r mode comment extension payloads).reverse =
      r.blockLines mode comment extension payloads := by
  simp [Draft.placements, hasHeading, hr, blockLines]

theorem reverse_placements_fieldAppend {r : Rule} (hr : r.placement = .fieldAppend) (mode : Mode)
    (comment extension : Text) (payloads : List Text) :
    (Draft.placements r mode comment extension payloads).reverse =
      payloads.map (r.render mode) := by
  simp [Draft.placements, hasHeading, hr]

end Rule

namespace Draft

theorem splice_nil (d : Draft) (r : Rule) (mode : Mode) (comment extension : Text) :
    d.splice r mode comment extension [] = (d, none) := by
  simp [splice]

theorem splice_of_none {d : Draft} {r : Rule} {payloads : List Text} (hp : payloads ≠ [])
    (h : ∀ line ∈ d.lines, r.placement.accepts r.marker line = false) (mode : Mode)
    (comment extension : Text) :
    d.splice r mode comment extension payloads =
      (d, some (.missingMarker r.tag r.marker d.path extension)) := by
  simp only [splice, if_neg hp, findMarker?_eq_none_iff.mpr h]

/-- The placing alone would come to the same, as a text that lacks its marker is refused as well. -/
theorem splice_eq_placeAll {d : Draft} {r : Rule} {mode : Mode} {comment extension : Text}
    {payloads : List Text} (hp : payloads ≠ []) :
    d.splice r mode comment extension payloads =
      d.placeAll r extension (placements r mode comment extension payloads) := by
  obtain ⟨text, rest, htexts⟩ : ∃ text rest,
      placements r mode comment extension payloads = text :: rest := by
    apply List.exists_cons_of_ne_nil
    simp [placements, hp]
  rcases split_or_none r.placement r.marker d.lines with ⟨above, line, below, h⟩ | hnone
  · have hfind : d.findMarker? r.placement r.marker = some above.length := h.findIdx?
    simp only [splice, if_neg hp, hfind]
  · rw [splice_of_none hp hnone, htexts, placeAll, place_of_none hnone]

theorem splice_of_split {d : Draft} {r : Rule} (hr : r.placement = .afterMarker)
    {payloads : List Text} (hp : payloads ≠ []) {line : Text} {above below : List Text}
    (h : Split .afterMarker r.marker d.lines above line below) (mode : Mode)
    (comment extension : Text) :
    d.splice r mode comment extension payloads =
      ({ d with lines :=
          above ++ line :: (r.blockLines mode comment extension payloads ++ below) }, none) := by
  rw [splice_eq_placeAll hp, placeAll_of_split hr extension h, Rule.reverse_placements_afterMarker hr]

theorem splice_cases (d : Draft) {r : Rule} (hr : r.placement = .afterMarker) (mode : Mode)
    (comment extension : Text) (payloads : List Text) :
    (payloads = [] ∧ d.splice r mode comment extension payloads = (d, none)) ∨
    (∃ above line below, Split .afterMarker r.marker d.lines above line below ∧ payloads ≠ [] ∧
      d.splice r mode comment extension payloads = ({ d with lines :=
        above ++ line :: (r.blockLines mode comment extension payloads ++ below) }, none)) ∨
    ((∀ line ∈ d.lines, Placement.accepts .afterMarker r.marker line = false) ∧ payloads ≠ [] ∧
      d.splice r mode comment extension payloads =
        (d, some (.missingMarker r.tag r.marker d.path extension))) := by
  by_cases hp : payloads = []
  · exact Or.inl ⟨hp, by rw [hp, splice_nil]⟩
  rcases split_or_none .afterMarker r.marker d.lines with ⟨above, line, below, h⟩ | hnone
  · exact Or.inr (Or.inl ⟨above, line, below, h, hp, splice_of_split hr hp h mode comment extension⟩)
  · exact Or.inr (Or.inr ⟨hnone, hp, splice_of_none hp (by rwa [hr]) mode comment extension⟩)

end Draft
end TemplateSplice
