import Mathlib.Data.List.Basic
import TemplateSplice.Draft
import TemplateSplice.Proofs.Lines

/-! Line endings. Cut at its line feeds, a text is some closed parts and a last one that is open; `lines`
takes the carriage return off the end of each closed part and drops an empty last one. So a draft that
nothing was put into reads as its template does, with the carriage return taken out of every ending that
has one. -/

namespace TemplateSplice

namespace Text

/-- Takes the carriage return out of every line ending that has one. -/
def dropReturns : Text → Text
  | [] => []
  | '\r' :: '\n' :: rest => '\n' :: dropReturns rest
  | c :: rest => c :: dropReturns rest

theorem join_split (separator : Char) (t : Text) : join [separator] (split separator t) = t := by
  rw [split_eq_splitOn, join, List.intercalate_splitOn]

theorem exists_split (t : Text) : ∃ closed last, split '\n' t = closed ++ [last] :=
  ⟨_, _, (List.dropLast_concat_getLast (split_ne_nil '\n' t)).symm⟩

theorem chompReturn_cons {c : Char} {part : Text} (h : part ≠ []) :
    chompReturn (c :: part) = c :: chompReturn part := by
  rw [chompReturn, chompReturn, List.getLast?_cons_of_ne_nil h]
  split_ifs
  · exact List.dropLast_cons_of_ne_nil h
  · rfl

theorem dropReturns_cons {c : Char} {t : Text} (h : c = '\r' → t.head? ≠ some '\n') :
    dropReturns (c :: t) = c :: dropReturns t := by
  rw [dropReturns]
  rintro rest rfl rfl
  exact h rfl rfl

theorem dropReturns_of_not_mem {t : Text} (h : '\n' ∉ t) : dropReturns t = t := by
  induction t with
  | nil => rfl
  | cons c rest ih =>
    rw [List.mem_cons, not_or] at h
    rw [dropReturns_cons fun _ hhead => h.2 (List.mem_of_head? hhead), ih h.2]

theorem dropReturns_append {part : Text} (h : '\n' ∉ part) (rest : Text) :
    dropReturns (part ++ '\n' :: rest) = chompReturn part ++ '\n' :: dropReturns rest := by
  induction part with
  | nil => rfl
  | cons c part ih =>
    rw [List.mem_cons, not_or] at h
    cases part with
    | nil =>
      by_cases hc : c = '\r'
      · rw [hc]
        rfl
      · rw [List.singleton_append, dropReturns_cons (absurd · hc), chompReturn, if_neg (by simpa using hc)]
        exact congrArg (c :: ·) (ih h.2)
    | cons d part =>
      have hd : d ≠ '\n' := fun hd => h.2 (hd ▸ List.mem_cons_self)
      rw [chompReturn_cons (List.cons_ne_nil _ _)]
      exact (dropReturns_cons (by simpa using fun _ => hd)).trans (congrArg (c :: ·) (ih h.2))

theorem join_cons (part : Text) (parts : List Text) (last : Text) :
    join ['\n'] (part :: (parts ++ [last])) = part ++ '\n' :: join ['\n'] (parts ++ [last]) := by
  rw [join, List.intercalate_cons_of_ne_nil (by simp), List.append_assoc]
  rfl

theorem suffix_join (parts : List Text) (last : Text) : last <:+ join ['\n'] (parts ++ [last]) := by
  induction parts with
  | nil => simp [join]
  | cons part parts ih =>
    rw [List.cons_append, join_cons]
    exact (ih.trans (List.suffix_cons _ _)).trans (List.suffix_append _ _)

/-- The last part keeps its carriage return, since no line feed follows. -/
theorem dropReturns_join {closed : List Text} {last : Text} (hclosed : ∀ part ∈ closed, '\n' ∉ part)
    (hlast : '\n' ∉ last) :
    dropReturns (join ['\n'] (closed ++ [last])) = join ['\n'] (closed.map chompReturn ++ [last]) := by
  induction closed with
  | nil => simpa [join] using dropReturns_of_not_mem hlast
  | cons part parts ih =>
    obtain ⟨hpart, hparts⟩ := List.forall_mem_cons.mp hclosed
    rw [List.map_cons, List.cons_append, List.cons_append, join_cons, join_cons,
      dropReturns_append hpart, ih hparts]

theorem dropReturns_eq_self_iff (t : Text) : dropReturns t = t ↔ ¬ ['\r', '\n'] <:+: t := by
  induction t using dropReturns.induct with
  | case1 => simp [dropReturns]
  | case2 rest ih =>
    have hending : ['\r', '\n'] <:+: '\r' :: '\n' :: rest := ⟨[], rest, rfl⟩
    simp [dropReturns, hending]
  | case3 c rest hother ih =>
    have hstart : ¬ ['\r', '\n'] <+: c :: rest := by
      rintro ⟨behind, hbehind⟩
      obtain ⟨rfl, rfl⟩ := List.cons.inj hbehind
      exact hother _ rfl rfl
    rw [dropReturns.eq_3 c rest hother, List.infix_cons_iff, List.cons_inj_right, ih]
    simp [hstart]

section
variable {t last : Text} {closed : List Text}

theorem dropReturns_eq_join (h : split '\n' t = closed ++ [last]) :
    dropReturns t = join ['\n'] (closed.map chompReturn ++ [last]) := by
  have hmem : ∀ part ∈ closed ++ [last], '\n' ∉ part := fun part hpart =>
    not_mem_of_mem_split (h ▸ hpart)
  rw [← dropReturns_join (fun part hpart => hmem part (List.mem_append_left _ hpart))
    (hmem last List.mem_concat_self), ← h, join_split]

theorem split_dropReturns (h : split '\n' t = closed ++ [last]) :
    split '\n' (dropReturns t) = closed.map chompReturn ++ [last] := by
  rw [dropReturns_eq_join h, split_eq_splitOn, join]
  refine List.splitOn_intercalate '\n' (fun part hpart => ?_) (by simp)
  rcases List.mem_append.mp hpart with hpart | hpart
  · obtain ⟨whole, hwhole, rfl⟩ := List.mem_map.mp hpart
    have hnone : '\n' ∉ whole := not_mem_of_mem_split (h ▸ List.mem_append_left _ hwhole)
    exact fun hmem => hnone (chompReturn_subset whole hmem)
  · exact not_mem_of_mem_split (h ▸ List.mem_append_right _ hpart)

theorem lines_of_split (h : split '\n' t = closed ++ [last]) :
    lines t = closed.map chompReturn ++ if last = [] then [] else [last] := by
  simp only [lines, h, List.dropLast_concat, List.getLast?_concat]
  cases last with
  | nil => simp
  | cons c rest => simp

theorem endsInNewline_of_split (h : split '\n' t = closed ++ [last]) :
    endsInNewline t = decide (closed ≠ [] ∧ last = []) := by
  have ht : t = join ['\n'] (closed ++ [last]) := by rw [← h, join_split]
  by_cases hempty : last = []
  · rw [hempty] at ht ⊢
    cases closed with
    | nil => rw [ht]; rfl
    | cons part parts =>
      have hwritten : t = ofLines (part :: parts) true :=
        ht.trans (ofLines_eq_join (List.cons_ne_nil _ _) true).symm
      simp [hwritten, endsInNewline, ofLines]
  · obtain ⟨front, hfront⟩ := suffix_join closed last
    rw [← ht] at hfront
    have hlast : '\n' ∉ last := not_mem_of_mem_split (h ▸ List.mem_concat_self)
    rw [endsInNewline, ← hfront, List.getLast?_append_of_ne_nil _ hempty]
    simpa [hempty] using fun h => hlast (List.mem_of_getLast? h)

end

/-- Lines that are written with the endings of a text read as it does without its carriage returns. -/
theorem ofLines_lines (t : Text) : ofLines (lines t) (endsInNewline t) = dropReturns t := by
  obtain ⟨closed, last, hsplit⟩ := exists_split t
  rw [lines_of_split hsplit, endsInNewline_of_split hsplit, dropReturns_eq_join hsplit]
  by_cases hempty : last = []
  · rw [if_pos hempty, List.append_nil, hempty]
    cases closed with
    | nil => rfl
    | cons part parts =>
      rw [ofLines_eq_join (by simp)]
      simp
  · simp [hempty, ofLines]

end Text

theorem Draft.render_ofTemplate (path : Path) (template : Text) :
    (ofTemplate path template).render = template.dropReturns :=
  Text.ofLines_lines template

end TemplateSplice
