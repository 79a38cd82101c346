import TemplateSplice.Proofs.Placement
import TemplateSplice.Proofs.Trim

/-! The field of a draft that nothing else writes to. `grown` is the draft after texts have been added
to the field, and one more addition makes it `grown` by one text more: the line found is the same line
again, since what it begins with stays, and the recorded offset is the end of its own content, so the
text goes in there, in front of the texts added before. -/

namespace TemplateSplice

theorem accepts_grow {marker line : Text} (added : Text)
    (h : Placement.accepts .fieldAppend marker line = true) :
    Placement.accepts .fieldAppend marker (Text.grow added line) = true := by
  rw [accepts_fieldAppend] at h ⊢
  exact h.trans (Text.trim_prefix_trim_grow added line)

namespace Draft

/-- The draft with `texts` added to a field, the first of them closest to the field's own content. -/
def grown (d : Draft) (marker : Text) : List Text → Draft
  | [] => d
  | text :: texts =>
    match d.findMarker? .fieldAppend marker with
    | none => d
    | some i => { d with
        lines := d.lines.modify i (Text.grow (text :: texts).flatten)
        anchors := [(marker, Text.byteLength (Text.trimEnd (d.lines[i]?.getD [])))] }

theorem grown_of_none {d : Draft} {marker : Text}
    (h : ∀ line ∈ d.lines, Placement.accepts .fieldAppend marker line = false) (texts : List Text) :
    d.grown marker texts = d := by
  cases texts with
  | nil => rfl
  | cons text texts => simp only [grown, findMarker?_eq_none_iff.mpr h]

section
variable {d : Draft} {marker line : Text} {above below : List Text}

theorem lines_recordAnchor (d : Draft) (marker : Text) (offset : Nat) :
    (d.recordAnchor marker offset).lines = d.lines := by
  unfold recordAnchor
  split <;> rfl

theorem grown_of_split (h : Split .fieldAppend marker d.lines above line below) (text : Text)
    (texts : List Text) :
    d.grown marker (text :: texts) = { d with
      lines := above ++ Text.grow (text :: texts).flatten line :: below
      anchors := [(marker, Text.byteLength (Text.trimEnd line))] } := by
  have hfind : d.findMarker? .fieldAppend marker = some above.length := h.findIdx?
  have hline : d.lines[above.length]?.getD [] = line := by rw [h.lines_eq]; simp
  have hmodify (f : Text → Text) : d.lines.modify above.length f = above ++ f line :: below := by
    rw [h.lines_eq, modify_length]
  simp only [grown, hfind, hline, hmodify]

theorem lines_grown (h : Split .fieldAppend marker d.lines above line below) (texts : List Text) :
    (d.grown marker texts).lines = above ++ Text.grow texts.flatten line :: below := by
  cases texts with
  | nil => simp [grown, Text.grow_nil, h.lines_eq]
  | cons text texts => rw [grown_of_split h]

theorem split_grown (h : Split .fieldAppend marker d.lines above line below) (texts : List Text) :
    Split .fieldAppend marker (d.grown marker texts).lines above (Text.grow texts.flatten line)
      below :=
  ⟨lines_grown h texts, h.above, accepts_grow _ h.line⟩

/-- Before the first addition the offset is computed, afterwards it is looked up. It is the same. -/
theorem anchor_grown (hd : d.anchors = []) (h : Split .fieldAppend marker d.lines above line below)
    (texts : List Text) :
    (d.grown marker texts).anchor marker (Text.grow texts.flatten line) =
      Text.byteLength (Text.trimEnd line) := by
  cases texts with
  | nil => simp [grown, anchor, hd, Text.grow_nil]
  | cons text texts => simp [grown_of_split h, anchor]

/-- Where the recorded end of a field is that of its own content, a text goes in there, in front of the
texts added before. -/
theorem appendToField_of_anchor {added : Text}
    (h : Split .fieldAppend marker d.lines above (Text.grow added line) below)
    (hanchor : d.anchor marker (Text.grow added line) = Text.byteLength (Text.trimEnd line))
    (text : Text) :
    d.appendToField marker text =
      ({ d.recordAnchor marker (Text.byteLength (Text.trimEnd line)) with
        lines := above ++ Text.grow (text ++ added) line :: below }, .line above.length) := by
  have hfind : d.findMarker? .fieldAppend marker = some above.length := h.findIdx?
  have hline : d.lines[above.length]?.getD [] = Text.grow added line := by
    rw [h.lines_eq]; simp
  -- the offset never lies beyond the line, so it is taken as it is
  have hoffset := Nat.min_eq_left (Text.byteLength_trimEnd_le added line)
  have hset (new : Text) : d.lines.set above.length new = above ++ new :: below := by
    rw [h.lines_eq]; simp
  simp only [appendToField, hfind, hline, hanchor, hoffset, Text.insertAtByte?_trimEnd, lines_recordAnchor,
    hset]

theorem appendToField_grown (hd : d.anchors = [])
    (h : Split .fieldAppend marker d.lines above line below) (text : Text) (texts : List Text) :
    (d.grown marker texts).appendToField marker text =
      (d.grown marker (text :: texts), .line above.length) := by
  have hrecord : (d.grown marker texts).recordAnchor marker (Text.byteLength (Text.trimEnd line)) =
      { d.grown marker texts with
        anchors := [(marker, Text.byteLength (Text.trimEnd line))] } := by
    cases texts with
    | nil => simp [grown, recordAnchor, hd]
    | cons text texts => simp [grown_of_split h, recordAnchor]
  rw [appendToField_of_anchor (split_grown h texts) (anchor_grown hd h texts), hrecord, grown_of_split h]
  cases texts with
  | nil => simp [grown]
  | cons first texts => simp [grown_of_split h]

theorem placeAll_grown {r : Rule} (hr : r.placement = .fieldAppend) (extension : Text)
    (hd : d.anchors = []) (h : Split .fieldAppend r.marker d.lines above line below)
    (new texts : List Text) :
    (d.grown r.marker texts).placeAll r extension new =
      (d.grown r.marker (new.reverse ++ texts), none) := by
  induction new generalizing texts with
  | nil => rfl
  | cons text rest ih =>
    simp only [placeAll, hr, place, appendToField_grown hd h]
    rw [ih]
    simp

theorem splice_grown {r : Rule} (hr : r.placement = .fieldAppend) (hd : d.anchors = [])
    (h : Split .fieldAppend r.marker d.lines above line below) (mode : Mode)
    (comment extension : Text) (payloads texts : List Text) :
    (d.grown r.marker texts).splice r mode comment extension payloads =
      (d.grown r.marker (payloads.map (r.render mode) ++ texts), none) := by
  by_cases hp : payloads = []
  · subst hp
    rw [splice_nil]; rfl
  · rw [splice_eq_placeAll hp, placeAll_grown hr extension hd h,
      Rule.reverse_placements_fieldAppend hr]

end
end Draft
end TemplateSplice
