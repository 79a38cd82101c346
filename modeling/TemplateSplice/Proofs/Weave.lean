import Mathlib.Logic.Function.Basic
import TemplateSplice.Proofs.Placement

/-! The closed form of lines that have been put below markers. `weave` says what stands below which
marker and nothing of the order in which it came there. A block that goes below a marker is woven in
at the head of what stands there, as long as no text below another marker can be taken for this one. -/

namespace TemplateSplice

/-- Lines with `below m` under the first of them that is the marker `m`. -/
def weave (below : Text → List Text) : List Text → List Text
  | [] => []
  | line :: rest =>
    line :: (below (Text.trim line) ++ weave (Function.update below (Text.trim line) []) rest)

theorem weave_nil (below : Text → List Text) : weave below [] = [] := rfl

theorem mem_weave {below : Text → List Text} {lines : List Text} {x : Text}
    (h : x ∈ weave below lines) : x ∈ lines ∨ ∃ line ∈ lines, x ∈ below (Text.trim line) := by
  induction lines generalizing below with
  | nil => simp [weave] at h
  | cons line rest ih =>
    rw [weave, List.mem_cons, List.mem_append] at h
    rcases h with rfl | h | h
    · exact Or.inl List.mem_cons_self
    · exact Or.inr ⟨line, List.mem_cons_self, h⟩
    · rcases ih h with h | ⟨other, hother, h⟩
      · exact Or.inl (List.mem_cons_of_mem _ h)
      · refine Or.inr ⟨other, List.mem_cons_of_mem _ hother, ?_⟩
        by_cases ho : Text.trim other = Text.trim line
        · rw [ho, Function.update_self] at h; cases h
        · rwa [Function.update_of_ne ho] at h

theorem weave_nothing (lines : List Text) : weave (fun _ => []) lines = lines := by
  induction lines with
  | nil => rfl
  | cons line rest ih =>
    rw [weave, Function.update_eq_self (Text.trim line), ih]
    rfl

theorem weave_congr {below below' : Text → List Text} {lines : List Text}
    (h : ∀ line ∈ lines, below (Text.trim line) = below' (Text.trim line)) :
    weave below lines = weave below' lines := by
  induction lines generalizing below below' with
  | nil => rfl
  | cons line rest ih =>
    obtain ⟨hline, hrest⟩ := List.forall_mem_cons.mp h
    rw [weave, weave, hline]
    refine congrArg (fun woven => line :: (below' (Text.trim line) ++ woven)) (ih fun other hother => ?_)
    by_cases ho : Text.trim other = Text.trim line
    · rw [ho, Function.update_self, Function.update_self]
    · rw [Function.update_of_ne ho, Function.update_of_ne ho]
      exact hrest other hother

/-- No text that stands below another marker is this one. -/
def Apart (below : Text → List Text) (marker : Text) : Prop :=
  ∀ other ≠ marker, ∀ text ∈ below other, Text.trim text ≠ marker

theorem Apart.update {below : Text → List Text} {marker other : Text} (h : Apart below marker) :
    Apart (Function.update below other []) marker := by
  intro m hm text htext
  by_cases ho : m = other
  · rw [ho, Function.update_self] at htext; cases htext
  · rw [Function.update_of_ne ho] at htext
    exact h m hm text htext

theorem weave_of_none {below : Text → List Text} {marker : Text} (hq : Apart below marker)
    {lines : List Text} (h : ∀ line ∈ lines, Placement.accepts .afterMarker marker line = false) :
    ∀ line ∈ weave below lines, Placement.accepts .afterMarker marker line = false := by
  intro x hx
  rcases mem_weave hx with hx | ⟨line, hline, hx⟩
  · exact h x hx
  · rw [accepts_afterMarker_eq_false]
    exact hq _ (accepts_afterMarker_eq_false.mp (h line hline)) x hx

/-- Among the woven lines a marker is found where the template has it, below what is woven from the lines
above it. Its own texts stand right under it, and texts put there are woven in at their head. -/
theorem weave_of_split {below : Text → List Text} {marker : Text} (hq : Apart below marker)
    {lines above rest : List Text} {line : Text}
    (h : Split .afterMarker marker lines above line rest) :
    ∃ rest', Split .afterMarker marker (weave below lines) (weave below above) line rest' ∧
      ∀ new, weave (Function.update below marker (new ++ below marker)) lines =
        weave below above ++ line :: (new ++ rest') := by
  obtain ⟨rfl, habove, hline⟩ := h
  have htrim := accepts_afterMarker.mp hline
  induction above generalizing below with
  | nil =>
    rw [weave_nil, List.nil_append]
    refine ⟨below marker ++ weave (Function.update below marker []) rest, ⟨?_, by simp, hline⟩, ?_⟩
    · rw [weave, htrim]; rfl
    · intro new
      rw [weave, htrim, Function.update_self, Function.update_idem]
      simp
  | cons x above ih =>
    obtain ⟨hx, habove⟩ := List.forall_mem_cons.mp habove
    have hne : Text.trim x ≠ marker := accepts_afterMarker_eq_false.mp hx
    obtain ⟨rest', hsplit, hnew⟩ := ih hq.update habove
    refine ⟨rest', ⟨?_, ?_, hline⟩, ?_⟩
    · rw [List.cons_append, weave, hsplit.lines_eq, weave]
      simp
    · rw [weave]
      refine List.forall_mem_cons.mpr ⟨hx, fun y hy => ?_⟩
      rcases List.mem_append.mp hy with hy | hy
      · exact accepts_afterMarker_eq_false.mpr (hq _ hne y hy)
      · exact hsplit.above y hy
    · intro new
      have := hnew new
      rw [Function.update_of_ne hne.symm, Function.update_comm hne] at this
      rw [List.cons_append, weave, Function.update_of_ne hne, this, weave]
      simp

end TemplateSplice
