import TemplateSplice.Proofs.Field

/-! Additions to fields, with lines inserted in between and several markers in use. The end of a field
is recorded for its marker and not for the line, so it is the end of the right line as long as a marker
keeps finding the line that it found first, and no other marker finds that line (`Steady`). Then every
addition goes in right behind the content that its line had before anything was added to it. -/

namespace TemplateSplice

structure Placing where
  placement : Placement
  marker : Text
  text : Text
  deriving DecidableEq, Repr

/-- A line with what has been added to it, the latest first, each text with the marker it was added
under. -/
structure FieldLine where
  /-- What the line was before anything was added. -/
  own : Text
  added : List (Text × Text) := []
  deriving DecidableEq, Repr

theorem Draft.lookup_recordAnchor (d : Draft) (marker : Text) (offset : Nat) (m : Text) :
    (d.recordAnchor marker offset).anchors.lookup m =
      if m = marker then some ((d.anchors.lookup marker).getD offset) else d.anchors.lookup m := by
  unfold recordAnchor
  by_cases hm : m = marker
  · subst hm
    cases hlookup : d.anchors.lookup m with
    | none => simp
    | some found => simp [hlookup]
  · rw [if_neg hm]
    split
    · rfl
    · simp [List.lookup_cons, beq_eq_false_iff_ne.mpr hm]

namespace FieldLine

def texts (f : FieldLine) : List Text :=
  f.added.map (·.2)

def line (f : FieldLine) : Text :=
  Text.grow f.texts.flatten f.own

def add (marker text : Text) (f : FieldLine) : FieldLine :=
  { f with added := (marker, text) :: f.added }

def place (fields : List FieldLine) (p : Placing) : List FieldLine × Landing :=
  match (fields.map line).findIdx? (p.placement.accepts p.marker) with
  | none => (fields, .noMarker)
  | some i =>
    match p.placement with
    | .afterMarker => (fields.insertIdx (i + 1) { own := p.text }, .line (i + 1))
    | .fieldAppend => (fields.modify i (add p.marker p.text), .line i)

/-- The line that an addition finds has been added to under its marker only, and no other line has. -/
def Steady (fields : List FieldLine) (p : Placing) : Prop :=
  p.placement = .fieldAppend →
    ∀ i ∈ (fields.map line).findIdx? (Placement.accepts .fieldAppend p.marker),
      (∀ f ∈ fields[i]?, ∀ a ∈ f.added, a.1 = p.marker) ∧
        ∀ f ∈ fields.eraseIdx i, ∀ a ∈ f.added, a.1 ≠ p.marker

instance (fields : List FieldLine) (p : Placing) : Decidable (Steady fields p) := by
  unfold Steady; infer_instance

theorem line_own (text : Text) : line { own := text } = text :=
  Text.grow_nil text

theorem exists_split {p : Placement} {marker line' : Text} {fields : List FieldLine}
    {above below : List Text} (h : Split p marker (fields.map line) above line' below) :
    ∃ before f after, fields = before ++ f :: after ∧ before.map line = above ∧ f.line = line' ∧
      after.map line = below := by
  obtain ⟨before, rest, hfields, habove, hrest⟩ := List.map_eq_append_iff.mp h.lines_eq
  obtain ⟨f, after, rfl, hf, hafter⟩ := List.map_eq_cons_iff.mp hrest
  exact ⟨before, f, after, hfields, habove, hf, hafter⟩

/-- Fields stand for a draft. Its lines are theirs, and the offset recorded for a marker is where the own
content of the line ends that has been added to under it. -/
structure Represents (fields : List FieldLine) (d : Draft) : Prop where
  lines : d.lines = fields.map line
  recorded : ∀ f ∈ fields, ∀ a ∈ f.added,
    d.anchors.lookup a.1 = some (Text.byteLength (Text.trimEnd f.own))
  used : ∀ marker offset, d.anchors.lookup marker = some offset →
    ∃ f ∈ fields, ∃ a ∈ f.added, a.1 = marker

namespace Represents

variable {fields before after : List FieldLine} {f : FieldLine} {d : Draft} {marker : Text}

theorem ofTemplate (path : Path) (template : Text) :
    Represents (template.lines.map ({ own := · })) (.ofTemplate path template) := by
  refine ⟨?_, ?_, ?_⟩
  · have hown : line ∘ ({ own := · }) = id := funext line_own
    rw [List.map_map, hown, List.map_id]
    rfl
  · intro f hf a ha
    obtain ⟨text, -, rfl⟩ := List.mem_map.mp hf
    cases ha
  · intro marker offset h
    cases h

theorem insert (h : Represents (before ++ f :: after) d) (text : Text) :
    Represents (before ++ f :: { own := text } :: after)
      { d with lines := before.map line ++ f.line :: text :: after.map line } := by
  have hmem (g : FieldLine) : g ∈ before ++ f :: { own := text } :: after ↔
      g = { own := text } ∨ g ∈ before ++ f :: after := by
    simp only [List.mem_append, List.mem_cons]
    tauto
  refine ⟨by simp [line_own], ?_, ?_⟩
  · intro g hg a ha
    rcases (hmem g).mp hg with rfl | hg
    · cases ha
    · exact h.recorded g hg a ha
  · intro marker offset hlookup
    obtain ⟨g, hg, hused⟩ := h.used marker offset hlookup
    exact ⟨g, (hmem g).mpr (Or.inr hg), hused⟩

/-- The offset that is used for a line is where its own content ends, if the line has been added to under
this marker only and no other line has. -/
theorem anchor (h : Represents (before ++ f :: after) d) (hf : ∀ a ∈ f.added, a.1 = marker)
    (hothers : ∀ g ∈ before ++ after, ∀ a ∈ g.added, a.1 ≠ marker) :
    d.anchor marker f.line = Text.byteLength (Text.trimEnd f.own) := by
  have hmem : f ∈ before ++ f :: after := by simp
  unfold Draft.anchor
  cases hlookup : d.anchors.lookup marker with
  | none =>
    -- nothing has been added to the line
    have hnone : f.added = [] := by
      refine List.eq_nil_iff_forall_not_mem.mpr fun a ha => ?_
      have hrecorded := h.recorded f hmem a ha
      rw [hf a ha, hlookup] at hrecorded
      cases hrecorded
    simp [line, texts, hnone, Text.grow_nil]
  | some offset =>
    obtain ⟨g, hg, a, ha, rfl⟩ := h.used marker offset hlookup
    rcases List.mem_cons.mp (List.perm_middle.mem_iff.mp hg) with rfl | hg
    · rw [h.recorded g hmem a ha] at hlookup
      simpa using hlookup.symm
    · exact absurd rfl (hothers g hg a ha)

theorem add (h : Represents (before ++ f :: after) d) (hf : ∀ a ∈ f.added, a.1 = marker)
    (hothers : ∀ g ∈ before ++ after, ∀ a ∈ g.added, a.1 ≠ marker) (text : Text) :
    Represents (before ++ f.add marker text :: after)
      { d.recordAnchor marker (Text.byteLength (Text.trimEnd f.own)) with
        lines := before.map line ++ (f.add marker text).line :: after.map line } := by
  have hend : (d.recordAnchor marker (Text.byteLength (Text.trimEnd f.own))).anchors.lookup marker =
      some (Text.byteLength (Text.trimEnd f.own)) := by
    rw [Draft.lookup_recordAnchor, if_pos rfl]
    have hanchor := h.anchor hf hothers
    unfold Draft.anchor at hanchor
    cases hlookup : d.anchors.lookup marker with
    | none => rfl
    | some offset => rw [hlookup] at hanchor; exact congrArg some hanchor
  refine ⟨by simp, ?_, ?_⟩
  · intro g hg a ha
    rcases List.mem_cons.mp (List.perm_middle.mem_iff.mp hg) with rfl | hg
    · have hmarker : a.1 = marker := by
        rcases List.mem_cons.mp ha with rfl | ha
        · rfl
        · exact hf a ha
      rw [hmarker]
      exact hend
    · rw [Draft.lookup_recordAnchor, if_neg (hothers g hg a ha)]
      exact h.recorded g (List.perm_middle.mem_iff.mpr (List.mem_cons_of_mem f hg)) a ha
  · intro m offset hlookup
    by_cases hm : m = marker
    · exact ⟨f.add marker text, by simp, (marker, text), List.mem_cons_self, hm.symm⟩
    · rw [Draft.lookup_recordAnchor, if_neg hm] at hlookup
      obtain ⟨g, hg, a, ha, hused⟩ := h.used m offset hlookup
      rcases List.mem_cons.mp (List.perm_middle.mem_iff.mp hg) with rfl | hg
      · exact ⟨g.add marker text, by simp, a, List.mem_cons_of_mem _ ha, hused⟩
      · exact ⟨g, List.perm_middle.mem_iff.mpr (List.mem_cons_of_mem _ hg), a, ha, hused⟩

theorem place {p : Placing} (h : Represents fields d) (hp : Steady fields p) :
    Represents (FieldLine.place fields p).1 (d.place p.placement p.marker p.text).1 ∧
      (d.place p.placement p.marker p.text).2 = (FieldLine.place fields p).2 := by
  obtain ⟨placement, marker, text⟩ := p
  rcases split_or_none placement marker (fields.map line) with ⟨above, line', below, hs⟩ | hnone
  · obtain ⟨before, f, after, rfl, rfl, rfl, rfl⟩ := exists_split hs
    have hfind := hs.findIdx?
    have hlines : Split placement marker d.lines (before.map line) f.line (after.map line) := by
      rwa [h.lines]
    cases placement with
    | afterMarker =>
      simp only [FieldLine.place, hfind, Draft.place, Draft.insertAfterMarker_of_split hlines,
        List.length_map, insertIdx_length_succ]
      exact ⟨h.insert text, trivial⟩
    | fieldAppend =>
      obtain ⟨hf, hothers⟩ := hp rfl _ hfind
      simp only [List.length_map] at hf hothers
      have hf : ∀ a ∈ f.added, a.1 = marker := hf f (by simp)
      have hothers : ∀ g ∈ before ++ after, ∀ a ∈ g.added, a.1 ≠ marker := by
        simpa [List.eraseIdx_append_of_length_le] using hothers
      simp only [FieldLine.place, hfind, Draft.place,
        Draft.appendToField_of_anchor hlines (h.anchor hf hothers), List.length_map, modify_length]
      exact ⟨h.add hf hothers text, trivial⟩
  · have hfind : (fields.map line).findIdx? (placement.accepts marker) = none :=
      List.findIdx?_eq_none_iff.mpr hnone
    rw [Draft.place_of_none (by rwa [h.lines])]
    simp only [FieldLine.place, hfind]
    exact ⟨h, trivial⟩

end Represents

def placeEach (fields : List FieldLine) (placings : List Placing) : List FieldLine :=
  placings.foldl (fun fields p => (place fields p).1) fields

def AllSteady (fields : List FieldLine) : List Placing → Prop
  | [] => True
  | p :: rest => Steady fields p ∧ AllSteady (place fields p).1 rest

instance decidableAllSteady (fields : List FieldLine) (placings : List Placing) :
    Decidable (AllSteady fields placings) :=
  match placings with
  | [] => .isTrue trivial
  | p :: rest =>
    have := decidableAllSteady (place fields p).1 rest
    inferInstanceAs (Decidable (Steady fields p ∧ AllSteady (place fields p).1 rest))

theorem place_ne_insideCharacter (fields : List FieldLine) (p : Placing) :
    (place fields p).2 ≠ .insideCharacter := by
  unfold place
  split
  · simp
  · split <;> simp

theorem place_of_fieldAppend {fields : List FieldLine} {p : Placing} {i : Nat}
    (hp : p.placement = .fieldAppend) (h : (place fields p).2 = .line i) :
    ∃ f, fields[i]? = some f ∧ (place fields p).1 = fields.set i (f.add p.marker p.text) := by
  unfold place at h ⊢
  rw [hp] at h ⊢
  split at h
  · cases h
  · next j hfind =>
    obtain rfl : j = i := by simpa using h
    obtain ⟨above, line', below, hs, rfl⟩ := split_of_findIdx? hfind
    obtain ⟨before, f, after, rfl, rfl, rfl, rfl⟩ := exists_split hs
    rw [List.length_map, modify_length]
    exact ⟨f, by simp, by simp⟩

end FieldLine

namespace Draft

def placeEach (d : Draft) (placings : List Placing) : Draft :=
  placings.foldl (fun d p => (d.place p.placement p.marker p.text).1) d

end Draft

namespace FieldLine

theorem Represents.placeEach {fields : List FieldLine} {d : Draft} {first second : List Placing}
    (h : Represents fields d) (hsteady : AllSteady fields (first ++ second)) :
    Represents (FieldLine.placeEach fields first) (d.placeEach first) ∧
      AllSteady (FieldLine.placeEach fields first) second := by
  induction first generalizing fields d with
  | nil => exact ⟨h, hsteady⟩
  | cons p rest ih => exact ih (h.place hsteady.1).1 hsteady.2

/-- Additions that are steady go where they are meant to. None of them meets the inside of a character,
and each puts its text right behind the content that its line had, trailing blanks apart, before anything
was added to it: what was added to it earlier follows in one piece, and then the blanks. -/
theorem ends_of_steady_placings (path : Path) (template : Text) (placings : List Placing)
    (h : AllSteady (template.lines.map ({ own := · })) placings) :
    ∀ before p after, placings = before ++ p :: after →
      let d := (Draft.ofTemplate path template).placeEach before
      let fields := placeEach (template.lines.map ({ own := · })) before
      let result := d.place p.placement p.marker p.text
      d.lines = fields.map line ∧ result.1.lines = (place fields p).1.map line ∧
      result.2 ≠ .insideCharacter ∧
      ∀ i, p.placement = .fieldAppend → result.2 = .line i →
        ∃ f, fields[i]? = some f ∧
          d.lines[i]? = some (Text.trimEnd f.own ++ f.texts.flatten ++ Text.trailing f.own) ∧
          result.1.lines = d.lines.set i
            (Text.trimEnd f.own ++ (p.text ++ f.texts.flatten) ++ Text.trailing f.own) := by
  intro before p after hplacings d fields result
  rw [hplacings] at h
  obtain ⟨hbefore, hsteady⟩ := (Represents.ofTemplate path template).placeEach h
  obtain ⟨hnext, hlanding⟩ := hbefore.place hsteady.1
  refine ⟨hbefore.lines, hnext.lines, ?_, fun i hp hi => ?_⟩
  · rw [hlanding]
    exact place_ne_insideCharacter _ p
  · rw [hlanding] at hi
    obtain ⟨f, hf, hadd⟩ := place_of_fieldAppend hp hi
    refine ⟨f, hf, ?_, ?_⟩
    · rw [hbefore.lines, List.getElem?_map, hf]
      rfl
    · rw [hnext.lines, hadd, List.map_set, hbefore.lines]
      rfl

theorem ends_of_two_fields :
    let template : Text := "m\nf: a \ng: é\n".toList
    let before : List Placing := [⟨.fieldAppend, "f:".toList, "+1".toList⟩, ⟨.afterMarker, ['m'], ['f']⟩,
      ⟨.fieldAppend, "g:".toList, "+2".toList⟩]
    let p : Placing := ⟨.fieldAppend, "f:".toList, "+3".toList⟩
    AllSteady (template.lines.map ({ own := · })) (before ++ [p]) ∧
    (((Draft.ofTemplate "x.cabal".toList template).placeEach before).place p.placement p.marker
      p.text).1.lines = [['m'], ['f'], "f: a+3+1 ".toList, "g: é+2".toList] := by
  intro template before p
  have hsteady : AllSteady (template.lines.map ({ own := · })) (before ++ [p]) := by decide +kernel
  obtain ⟨-, hlines, -, -⟩ :=
    ends_of_steady_placings "x.cabal".toList template (before ++ [p]) hsteady before p [] rfl
  refine ⟨hsteady, ?_⟩
  rw [hlines]
  decide +kernel

/-- The end that was recorded for a marker is used for a line that has come in above: there it may lie
inside of a character, and what is added to the line may be put into its midst. -/
theorem end_recorded_for_another_line :
    let start := Draft.ofTemplate "Config.hs".toList "m\nf: abc\n".toList
    let below (line : Text) := start.placeEach
      [⟨.fieldAppend, "f:".toList, ['+']⟩, ⟨.afterMarker, ['m'], line⟩]
    ((below "f: ééé".toList).place .fieldAppend "f:".toList ['-']).2 = .insideCharacter ∧
    ((below "f: abcdef".toList).place .fieldAppend "f:".toList ['-']).2 = .line 1 ∧
    ((below "f: abcdef".toList).place .fieldAppend "f:".toList ['-']).1.lines =
      [['m'], "f: abc-def".toList, "f: abc+".toList] := by
  decide +kernel

end FieldLine
end TemplateSplice
