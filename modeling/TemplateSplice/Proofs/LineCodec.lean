import TemplateSplice.Proofs.LineEndings

/-! Lines as a code for text. Reading a text into lines and writing these out takes one carriage return
out of every ending that has one, and nothing else; lines that are legible come back from the text that
they are written to. -/

namespace TemplateSplice.Draft

/-- Lines that can be told apart in the text that they are written to, and the end of the last one with
them. -/
structure Legible (d : Draft) : Prop where
  newline : ∀ line ∈ d.lines, '\n' ∉ line
  carriageReturn : ∀ line ∈ d.lines, line.getLast? ≠ some '\r'
  ended : d.closed = true → d.lines ≠ []
  unended : d.closed = false → ∀ line ∈ d.lines.getLast?, line ≠ []

theorem Legible.map_chompReturn {d : Draft} (h : d.Legible) {lines : List Text} (hsub : lines ⊆ d.lines) :
    lines.map Text.chompReturn = lines := by
  refine (List.map_congr_left fun line hline => ?_).trans (List.map_id lines)
  rw [Text.chompReturn, if_neg (h.carriageReturn line (hsub hline)), id_eq]

theorem Legible.ofTemplate_render {d : Draft} (h : d.Legible) (path : Path) :
    (ofTemplate path d.render).lines = d.lines ∧ (ofTemplate path d.render).closed = d.closed := by
  show Text.lines d.render = d.lines ∧ Text.endsInNewline d.render = d.closed
  by_cases hempty : d.lines = []
  · have hopen : d.closed = false := by
      rw [← Bool.not_eq_true]
      exact fun hclosed => h.ended hclosed hempty
    rw [render, hempty, hopen]
    exact ⟨rfl, rfl⟩
  have hsplit := Text.split_ofLines hempty h.newline d.closed
  cases hclosed : d.closed with
  | true =>
    rw [hclosed, if_pos rfl] at hsplit
    rw [render, hclosed, Text.lines_of_split hsplit, Text.endsInNewline_of_split hsplit,
      h.map_chompReturn (List.Subset.refl _)]
    simp [hempty]
  | false =>
    -- the last line is a part of its own, since it is not empty
    obtain ⟨front, last, hlines⟩ := (List.eq_nil_or_concat' d.lines).resolve_left hempty
    have hlast : last ≠ [] := h.unended hclosed last (by rw [hlines, List.getLast?_concat]; rfl)
    have hfront : front ⊆ d.lines := hlines ▸ List.subset_append_left _ _
    rw [hclosed, if_neg Bool.false_ne_true, List.append_nil, hlines] at hsplit
    rw [render, hclosed, hlines, Text.lines_of_split hsplit, Text.endsInNewline_of_split hsplit,
      h.map_chompReturn hfront]
    simp [hlast]

/-- What reading and writing come to, in both directions: a template that is read and written out has lost
one carriage return in every line ending that had one, and nothing else; a legible draft that is written
out and read has the same lines, and its last one is ended as before. -/
theorem lines_written_and_read_back (path : Path) :
    (∀ template : Text, (ofTemplate path template).render = template.dropReturns) ∧
    ∀ d : Draft, d.Legible →
      (ofTemplate path d.render).lines = d.lines ∧ (ofTemplate path d.render).closed = d.closed :=
  ⟨render_ofTemplate path, fun _ h => h.ofTemplate_render path⟩

/-- Blank lines first and in between, a carriage return inside of a line, and an open end. -/
theorem blank_lines_read_back :
    let d : Draft := ⟨[], [[], "a\rb".toList, [], "c".toList], false, []⟩
    d.Legible ∧ (ofTemplate [] d.render).lines = d.lines ∧ (ofTemplate [] d.render).closed = d.closed := by
  intro d
  have hlegible : d.Legible := ⟨by decide, by decide, by decide, by decide⟩
  exact ⟨hlegible, (lines_written_and_read_back []).2 d hlegible⟩

example : (ofTemplate [] "a\r\r\nb\r".toList).render = "a\r\nb\r".toList := by
  decide

end TemplateSplice.Draft
