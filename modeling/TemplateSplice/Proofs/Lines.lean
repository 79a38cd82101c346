import Mathlib.Tactic.SplitIfs
import TemplateSplice.Text.Lines

/-! Lines and the character between them. A line holds no line feed, and lines that hold none are read
back from the text that they are written to. -/

namespace TemplateSplice.Text

theorem split_eq_splitOn (separator : Char) (t : Text) : split separator t = t.splitOn separator := by
  induction t with
  | nil => rfl
  | cons c rest ih => simp only [split, List.splitOn_cons_eq_if_modifyHead, beq_iff_eq, ih]

theorem split_append (separator : Char) (s t : Text) :
    split separator (s ++ separator :: t) = split separator s ++ split separator t := by
  simp only [split_eq_splitOn, List.splitOn_append_cons_self]

theorem split_of_not_mem {separator : Char} {t : Text} (h : separator ∉ t) :
    split separator t = [t] := by
  rw [split_eq_splitOn, List.splitOn_eq_singleton h]

theorem not_mem_of_mem_split {separator : Char} {t part : Text} (h : part ∈ split separator t) :
    separator ∉ part := by
  induction t generalizing part with
  | nil =>
    rw [split, List.mem_singleton] at h
    rw [h]
    exact List.not_mem_nil
  | cons c rest ih =>
    rw [split] at h
    split_ifs at h with hc
    · rcases List.mem_cons.mp h with rfl | h
      · exact List.not_mem_nil
      · exact ih h
    · obtain ⟨first, parts, hparts⟩ := List.exists_cons_of_ne_nil (split_ne_nil separator rest)
      rw [hparts] at h ih
      rcases List.mem_cons.mp h with rfl | h
      · rw [List.mem_cons, not_or]
        exact ⟨Ne.symm hc, ih List.mem_cons_self⟩
      · exact ih (List.mem_cons_of_mem _ h)

theorem chompReturn_subset (t : Text) : chompReturn t ⊆ t := by
  rw [chompReturn]
  split_ifs
  · exact List.dropLast_subset t
  · exact List.Subset.refl t

theorem exists_mem_split_of_mem_lines {t line : Text} (h : line ∈ lines t) :
    ∃ part ∈ split '\n' t, line ⊆ part := by
  have hclosed : ∀ line ∈ (split '\n' t).dropLast.map chompReturn, ∃ part ∈ split '\n' t, line ⊆ part := by
    intro line hline
    obtain ⟨part, hpart, rfl⟩ := List.mem_map.mp hline
    exact ⟨part, List.dropLast_subset _ hpart, chompReturn_subset part⟩
  simp only [lines] at h
  split at h
  · next c rest hlast =>
    rcases List.mem_append.mp h with h | h
    · exact hclosed line h
    · rw [List.mem_singleton] at h
      exact ⟨c :: rest, List.mem_of_getLast? hlast, h ▸ List.Subset.refl _⟩
  · exact hclosed line h

theorem not_mem_of_mem_lines {t line : Text} (h : line ∈ lines t) : '\n' ∉ line := by
  obtain ⟨part, hpart, hsub⟩ := exists_mem_split_of_mem_lines h
  exact fun hmem => not_mem_of_mem_split hpart (hsub hmem)

/-- Ending the last line comes to the same as writing an empty part after it. -/
theorem ofLines_eq_join {lines : List Text} (hne : lines ≠ []) (closed : Bool) :
    ofLines lines closed = join ['\n'] (lines ++ if closed then [[]] else []) := by
  cases closed with
  | false => simp [ofLines]
  | true =>
    induction lines with
    | nil => exact absurd rfl hne
    | cons first rest ih =>
      cases rest with
      | nil => simp [ofLines, join, List.intercalate_cons_cons]
      | cons second rest =>
        have hrest := ih (List.cons_ne_nil _ _)
        simp only [ofLines, join, List.cons_append, List.intercalate_cons_cons, List.append_assoc,
          if_true] at hrest ⊢
        rw [hrest]

/-- Cut at its line feeds, a written text has its lines as parts, and an empty one after the last line
feed. -/
theorem split_ofLines {lines : List Text} (hne : lines ≠ []) (h : ∀ line ∈ lines, '\n' ∉ line)
    (closed : Bool) : split '\n' (ofLines lines closed) = lines ++ if closed then [[]] else [] := by
  rw [split_eq_splitOn, ofLines_eq_join hne, join]
  refine List.splitOn_intercalate '\n' (fun part hpart => ?_) (by simp [hne])
  rcases List.mem_append.mp hpart with hpart | hpart
  · exact h part hpart
  · cases closed <;> simp at hpart
    rw [hpart]
    exact List.not_mem_nil

end TemplateSplice.Text
