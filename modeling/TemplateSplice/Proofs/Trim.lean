import Mathlib.Data.List.DropRight
import TemplateSplice.Text.Utf8

/-! A text is its content followed by trailing blanks. What is put between the two, here `grow`,
leaves everything that the trimmed text begins with in its place. -/

namespace TemplateSplice.Text

def trailing (t : Text) : Text :=
  t.rtakeWhile isBlank

/-- Puts `added` after the content of a text, before its trailing blanks. -/
def grow (added t : Text) : Text :=
  trimEnd t ++ added ++ trailing t

theorem trimEnd_append_trailing (t : Text) : trimEnd t ++ trailing t = t :=
  List.rdropWhile_append_rtakeWhile

theorem grow_nil (t : Text) : grow [] t = t := by
  rw [grow, List.append_nil, trimEnd_append_trailing]

theorem trimEnd_trimEnd (t : Text) : trimEnd (trimEnd t) = trimEnd t :=
  List.rdropWhile_idempotent _ _

theorem trimEnd_trailing (t : Text) : trimEnd (trailing t) = [] :=
  List.rdropWhile_eq_nil_iff.mpr fun _ hc => List.mem_rtakeWhile_imp hc

theorem trimEnd_append (s t : Text) :
    trimEnd (s ++ t) = if trimEnd t = [] then trimEnd s else s ++ trimEnd t := by
  unfold trimEnd
  rw [List.reverse_append, List.dropWhile_append]
  by_cases h : t.reverse.dropWhile isBlank = []
  · simp [h]
  · simp [h, List.isEmpty_iff]

theorem trimStart_append (s t : Text) :
    trimStart (s ++ t) = if trimStart s = [] then trimStart t else trimStart s ++ t := by
  unfold trimStart
  rw [List.dropWhile_append]
  by_cases h : s.dropWhile isBlank = []
  · simp [h]
  · simp [h, List.isEmpty_iff]

theorem trimStart_eq_nil_iff (t : Text) : trimStart t = [] ↔ trimEnd t = [] := by
  simp [trimStart, trimEnd]

theorem trimStart_of_head {t : Text} (h : ∀ c ∈ t.head?, isBlank c = false) : trimStart t = t := by
  cases t with
  | nil => rfl
  | cons c rest => rw [trimStart, List.dropWhile_cons_of_neg (by simp [h c rfl])]

theorem trimEnd_append_singleton (s : Text) {c : Char} (h : isBlank c = false) :
    trimEnd (s ++ [c]) = s ++ [c] := by
  simp [trimEnd, h]

/-- The end of a text without trailing blanks stays where it is when its beginning is trimmed. -/
theorem trimEnd_trimStart_trimEnd (t : Text) :
    trimEnd (trimStart (trimEnd t)) = trimStart (trimEnd t) := by
  obtain ⟨front, hfront⟩ : trimStart (trimEnd t) <:+ trimEnd t := List.dropWhile_suffix _
  by_cases hnil : trimStart (trimEnd t) = []
  · rw [hnil]; rfl
  have hend : trimEnd (trimStart (trimEnd t)) ≠ [] := by
    intro h
    obtain ⟨c, rest, hc⟩ := List.exists_cons_of_ne_nil hnil
    have hblank : isBlank c = true := by
      refine List.rdropWhile_eq_nil_iff.mp h c ?_
      rw [hc]; exact List.mem_cons_self
    have hsolid := List.head_dropWhile_not isBlank hnil
    simp only [trimStart] at hc
    simp [hc, hblank] at hsolid
  have hkeep := trimEnd_append front (trimStart (trimEnd t))
  rw [hfront, trimEnd_trimEnd, if_neg hend] at hkeep
  exact List.append_cancel_left (hkeep.symm.trans hfront.symm)

theorem trim_trimEnd_append (t rest : Text) (h : trimEnd t ≠ []) :
    trim (trimEnd t ++ rest) = trimStart (trimEnd t) ++ trimEnd rest := by
  have hstart : trimStart (trimEnd t) ≠ [] := by
    intro hn
    rw [trimStart_eq_nil_iff, trimEnd_trimEnd] at hn
    exact h hn
  rw [trim, trimStart_append, if_neg hstart, trimEnd_append]
  split_ifs with hrest
  · rw [hrest, List.append_nil, trimEnd_trimStart_trimEnd]
  · rfl

theorem trim_prefix_trim_grow (added t : Text) : trim t <+: trim (grow added t) := by
  by_cases h : trimEnd t = []
  · have hnil : trim t = [] := by
      rw [trim, (trimStart_eq_nil_iff t).mpr h]; rfl
    rw [hnil]
    exact List.nil_prefix
  · have hline := trim_trimEnd_append t (trailing t) h
    rw [trimEnd_append_trailing, trimEnd_trailing, List.append_nil] at hline
    rw [hline, grow, List.append_assoc, trim_trimEnd_append t _ h]
    exact List.prefix_append _ _

theorem insertAtByte?_trimEnd (added middle t : Text) :
    insertAtByte? added (byteLength (trimEnd t)) (grow middle t) = some (grow (added ++ middle) t) := by
  rw [grow, List.append_assoc, insertAtByte?_byteLength]
  simp [grow]

theorem byteLength_trimEnd_le (middle t : Text) :
    byteLength (trimEnd t) ≤ byteLength (grow middle t) := by
  rw [grow, List.append_assoc, byteLength_append]
  exact Nat.le_add_right _ _

end TemplateSplice.Text
