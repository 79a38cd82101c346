import TemplateSplice.Payload
import TemplateSplice.Proofs.Lines
import TemplateSplice.Proofs.Trim

/-! Tagged lines. `claim?_eq_some_iff` is the shape of a line that carries a token; what follows from it
is that a payload is a piece of one line, and that a comment mark behind which a tag was found is one
too, and begins with no blank. -/

namespace TemplateSplice

namespace Text

theorem isPrefixOf?_eq_some_iff {s t rest : Text} :
    s.isPrefixOf? t = some rest ↔ t = s ++ rest := by
  induction s generalizing t with
  | nil => simp [List.isPrefixOf?, eq_comm]
  | cons c s ih =>
    cases t with
    | nil => simp [List.isPrefixOf?]
    | cons d t =>
      by_cases h : c = d
      · simp [List.isPrefixOf?, h, ih]
      · simp [List.isPrefixOf?, h, Ne.symm h]

theorem trim_subset (t : Text) : trim t ⊆ t := by
  have hend : trim t <+: trimStart t := List.rdropWhile_prefix _ _
  exact List.Subset.trans hend.subset (List.dropWhile_suffix _).subset

theorem head_trim {t rest : Text} {c : Char} (h : trim t = c :: rest) : isBlank c = false := by
  have hend : trim t <+: trimStart t := List.rdropWhile_prefix _ _
  obtain ⟨behind, hbehind⟩ := hend
  rw [h, trimStart] at hbehind
  have hne : t.dropWhile isBlank ≠ [] := by
    rw [← hbehind]
    exact List.cons_ne_nil _ _
  have hsolid := List.head_dropWhile_not isBlank hne
  simpa only [← hbehind, List.cons_append, List.head_cons] using hsolid

end Text

namespace Payload

variable {token comment line payload : Text}

/-- A line carries a payload for a token when, trimmed, it is the comment mark, blanks, the token and
either nothing or blanks with the payload behind them. -/
theorem claim?_eq_some_iff :
    claim? token comment line = some payload ↔
      ∃ body rest, Text.trim line = comment ++ body ∧ Text.trimStart body = token ++ rest ∧
        (∀ c ∈ rest.head?, Text.isBlank c = true) ∧ payload = Text.trimStart rest := by
  rw [claim?]
  constructor
  · intro h
    split at h
    · cases h
    next body hbody =>
    have hline := Text.isPrefixOf?_eq_some_iff.mp hbody
    split at h
    · cases h
    · next htoken =>
      obtain rfl := Option.some.inj h
      exact ⟨body, [], hline, Text.isPrefixOf?_eq_some_iff.mp htoken, by simp, rfl⟩
    · next c rest htoken =>
      split_ifs at h with hblank
      obtain rfl := Option.some.inj h
      exact ⟨body, c :: rest, hline, Text.isPrefixOf?_eq_some_iff.mp htoken, by simpa using hblank, rfl⟩
  · rintro ⟨body, rest, hline, htoken, hblank, rfl⟩
    rw [Text.isPrefixOf?_eq_some_iff.mpr hline]
    simp only [Text.isPrefixOf?_eq_some_iff.mpr htoken]
    cases rest with
    | nil => rfl
    | cons c rest => exact if_pos (hblank c rfl)

theorem ofLine?_eq_some_iff :
    ofLine? token comment line = some payload ↔
      claim? token comment line = some payload ∧ payload ≠ [] := by
  simp [ofLine?, Option.filter_eq_some_iff]

theorem mem_extract {content : Text} :
    payload ∈ extract token comment content ↔
      ∃ line ∈ content.lines, claim? token comment line = some payload ∧ payload ≠ [] := by
  simp only [extract, List.mem_filterMap, ofLine?_eq_some_iff]

theorem subset_of_claim? (h : claim? token comment line = some payload) : payload ⊆ line := by
  obtain ⟨body, rest, hline, htoken, -, rfl⟩ := claim?_eq_some_iff.mp h
  have hrest : Text.trimStart rest ⊆ rest := (List.dropWhile_suffix _).subset
  have hbody : rest ⊆ body := by
    have hsuffix : Text.trimStart body ⊆ body := (List.dropWhile_suffix _).subset
    rw [htoken] at hsuffix
    exact List.Subset.trans (List.subset_append_right _ _) hsuffix
  have hfront : body ⊆ line := by
    have hsuffix := Text.trim_subset line
    rw [hline] at hsuffix
    exact List.Subset.trans (List.subset_append_right _ _) hsuffix
  exact List.Subset.trans hrest (List.Subset.trans hbody hfront)

theorem comment_subset_of_claim? (h : claim? token comment line = some payload) : comment ⊆ line := by
  obtain ⟨body, rest, hline, -, -, -⟩ := claim?_eq_some_iff.mp h
  have hsuffix := Text.trim_subset line
  rw [hline] at hsuffix
  exact List.Subset.trans (List.subset_append_left _ _) hsuffix

/-- Behind a comment mark that begins with a blank no tag is ever found. -/
theorem head_comment_of_claim? (h : claim? token comment line = some payload) {c : Char}
    (hc : comment.head? = some c) : Text.isBlank c = false := by
  obtain ⟨body, rest, hline, -, -, -⟩ := claim?_eq_some_iff.mp h
  obtain ⟨behind, rfl⟩ := List.head?_eq_some_iff.mp hc
  exact Text.head_trim hline

end Payload
end TemplateSplice
