import TemplateSplice.Proofs.LineEndings
import TemplateSplice.Proofs.TaggedLine

/-! The grammar of payloads. A line carries a payload when blanks, the comment mark, blanks, the token,
blanks, the payload and blanks make it up, in this order. Such a line has one payload only, and reading a
text finds these payloads and no others: trimming takes off the outer blanks and no more, as long as mark
and token begin with no blank. Every part between two line feeds is read for itself, so the kind of line
endings is of no account, and two texts one below the other bring what each of them brings. -/

namespace TemplateSplice

namespace Text

def Blank (t : Text) : Prop :=
  ∀ c ∈ t, isBlank c = true

instance (t : Text) : Decidable (Blank t) :=
  decidable_of_iff (t.all isBlank = true) List.all_eq_true

structure Solid (t : Text) : Prop where
  head : ∀ c ∈ t.head?, isBlank c = false
  last : ∀ c ∈ t.getLast?, isBlank c = false

theorem trimStart_of_blank {w : Text} (h : Blank w) : trimStart w = [] :=
  List.dropWhile_eq_nil_iff.mpr h

theorem trimEnd_of_blank {w : Text} (h : Blank w) : trimEnd w = [] :=
  List.rdropWhile_eq_nil_iff.mpr h

theorem trimStart_blank_append {w : Text} (h : Blank w) (t : Text) : trimStart (w ++ t) = trimStart t := by
  rw [trimStart_append, if_pos (trimStart_of_blank h)]

theorem trim_blank_append {w : Text} (h : Blank w) (t : Text) : trim (w ++ t) = trim t := by
  rw [trim, trim, trimStart_blank_append h]

theorem trim_append_blank {w : Text} (h : Blank w) (t : Text) : trim (t ++ w) = trim t := by
  rw [trim, trim, trimStart_append]
  split_ifs with ht
  · rw [trimStart_of_blank h, ht]
  · rw [trimEnd_append, if_pos (trimEnd_of_blank h)]

theorem trimEnd_of_last {t : Text} (h : ∀ c ∈ t.getLast?, isBlank c = false) : trimEnd t = t := by
  rcases List.eq_nil_or_concat' t with rfl | ⟨front, c, rfl⟩
  · rfl
  · exact trimEnd_append_singleton front (h c List.getLast?_concat)

theorem Solid.trim {t : Text} (h : Solid t) : trim t = t := by
  rw [Text.trim, trimStart_of_head h.head, trimEnd_of_last h.last]

theorem Solid.append {s t : Text} (hs : s ≠ []) (ht : t ≠ []) (head : ∀ c ∈ s.head?, isBlank c = false)
    (last : ∀ c ∈ t.getLast?, isBlank c = false) : Solid (s ++ t) where
  head := by rwa [List.head?_append_of_ne_nil _ hs]
  last := by rwa [List.getLast?_append_of_ne_nil _ ht]

theorem head_trimStart (t : Text) : ∀ c ∈ (trimStart t).head?, isBlank c = false := by
  intro c hc
  have hsolid := List.head?_dropWhile_not isBlank t
  rw [trimStart, Option.mem_def] at hc
  rw [hc] at hsolid
  simpa using hsolid

theorem last_trim (t : Text) : ∀ c ∈ (trim t).getLast?, isBlank c = false := by
  intro c hc
  have hne : trim t ≠ [] := by
    rintro hnil
    rw [hnil] at hc
    cases hc
  have hsolid : ¬ isBlank ((trim t).getLast hne) = true :=
    List.rdropWhile_last_not isBlank (trimStart t) hne
  rw [Option.mem_def, List.getLast?_eq_some_getLast hne, Option.some.injEq] at hc
  rw [← hc]
  exact Bool.eq_false_iff.mpr hsolid

theorem exists_blank_trimStart (t : Text) : ∃ w, Blank w ∧ t = w ++ trimStart t :=
  ⟨t.takeWhile isBlank, fun _ => List.mem_takeWhile_imp, List.takeWhile_append_dropWhile.symm⟩

theorem exists_blank_trim (t : Text) : ∃ w₁ w₂, Blank w₁ ∧ Blank w₂ ∧ t = w₁ ++ trim t ++ w₂ := by
  obtain ⟨w, hw, ht⟩ := exists_blank_trimStart t
  refine ⟨w, trailing (trimStart t), hw, fun _ => List.mem_rtakeWhile_imp, ?_⟩
  rw [List.append_assoc, trim, trimEnd_append_trailing, ← ht]

theorem trim_chompReturn (t : Text) : trim (chompReturn t) = trim t := by
  rw [chompReturn]
  split_ifs with h
  · obtain ⟨front, rfl⟩ := List.getLast?_eq_some_iff.mp h
    rw [List.dropLast_concat, trim_append_blank]
    intro c hc
    rw [List.mem_singleton.mp hc]
    decide
  · rfl

end Text

namespace Payload

open Text

/-- How a line carries a payload for a token: with blanks around the comment mark, the token and the
payload, of which only those between token and payload have to be there. -/
def Carries (token comment line payload : Text) : Prop :=
  (∃ w₁ w₂ w₃ w₄, Blank w₁ ∧ Blank w₂ ∧ Blank w₃ ∧ Blank w₄ ∧ w₃ ≠ [] ∧
    line = w₁ ++ comment ++ w₂ ++ token ++ w₃ ++ payload ++ w₄) ∧ payload ≠ [] ∧ Solid payload

variable {token comment line payload : Text}

theorem claim?_congr {line' : Text} (h : trim line' = trim line) :
    claim? token comment line' = claim? token comment line := by
  rw [claim?, claim?, h]

theorem carries_of_ofLine? (h : ofLine? token comment line = some payload) :
    Carries token comment line payload := by
  obtain ⟨hclaim, hne⟩ := ofLine?_eq_some_iff.mp h
  obtain ⟨body, rest, hline, htoken, hblank, rfl⟩ := claim?_eq_some_iff.mp hclaim
  obtain ⟨w₁, w₄, hw₁, hw₄, houter⟩ := exists_blank_trim line
  obtain ⟨w₂, hw₂, hbody⟩ := exists_blank_trimStart body
  obtain ⟨w₃, hw₃, hrest⟩ := exists_blank_trimStart rest
  have hset : w₃ ≠ [] := by
    rintro rfl
    -- otherwise the payload would begin with the blank that has to follow the token
    obtain ⟨c, behind, hc⟩ := List.exists_cons_of_ne_nil hne
    have hsolid := head_trimStart rest c (by rw [hc]; rfl)
    have hfirst := hblank c (by rw [hrest, List.nil_append, hc]; rfl)
    rw [hsolid] at hfirst
    cases hfirst
  have hwhole : trim line = comment ++ w₂ ++ token ++ w₃ ++ trimStart rest := by
    rw [hline, hbody, htoken]
    nth_rewrite 1 [hrest]
    simp only [List.append_assoc]
  refine ⟨⟨w₁, w₂, w₃, w₄, hw₁, hw₂, hw₃, hw₄, hset, ?_⟩, hne, head_trimStart rest, ?_⟩
  · rw [houter, hwhole]
    simp only [List.append_assoc]
  · have hlast := last_trim line
    rwa [hwhole, List.getLast?_append_of_ne_nil _ hne] at hlast

theorem ofLine?_of_carries (htoken : ∃ c ∈ token.head?, isBlank c = false)
    (hcomment : ∀ c ∈ comment.head?, isBlank c = false) (h : Carries token comment line payload) :
    ofLine? token comment line = some payload := by
  obtain ⟨⟨w₁, w₂, w₃, w₄, hw₁, hw₂, hw₃, hw₄, hset, rfl⟩, hne, hpayload⟩ := h
  obtain ⟨first, hfirst, hsolid⟩ := htoken
  obtain ⟨behind, rfl⟩ := List.head?_eq_some_iff.mp hfirst
  obtain ⟨blank, blanks, rfl⟩ := List.exists_cons_of_ne_nil hset
  generalize hrest : blank :: blanks ++ payload = rest
  -- from the token on, nothing is blank at either end
  have hcore : Solid (first :: behind ++ rest) := by
    rw [← hrest, ← List.append_assoc]
    exact .append (by simp) hne (by simpa using hsolid) hpayload.last
  have hline : trim (w₁ ++ comment ++ w₂ ++ (first :: behind) ++ (blank :: blanks) ++ payload ++ w₄) =
      trim (comment ++ (w₂ ++ (first :: behind ++ rest))) := by
    rw [trim_append_blank hw₄]
    simp only [List.append_assoc, trim_blank_append hw₁, hrest]
  have hbody : trimStart (w₂ ++ (first :: behind ++ rest)) = first :: behind ++ rest := by
    rw [trimStart_blank_append hw₂, trimStart_of_head hcore.head]
  have hpart : ∀ c ∈ rest.head?, isBlank c = true := by
    rw [← hrest]
    simpa using hw₃ blank List.mem_cons_self
  have hlast : payload = trimStart rest := by
    rw [← hrest, trimStart_blank_append hw₃, trimStart_of_head hpayload.head]
  refine ofLine?_eq_some_iff.mpr ⟨claim?_eq_some_iff.mpr ?_, hne⟩
  cases comment with
  | nil =>
    refine ⟨first :: behind ++ rest, rest, ?_, trimStart_of_head hcore.head, hpart, hlast⟩
    rw [hline, List.nil_append, trim_blank_append hw₂]
    exact hcore.trim
  | cons c comment =>
    refine ⟨w₂ ++ (first :: behind ++ rest), rest, ?_, hbody, hpart, hlast⟩
    rw [hline, ← List.append_assoc]
    exact (Solid.append (by simp) (by simp) (by simpa using hcomment) hcore.last).trim

/-- The carriage return of a line ending is a blank like others. -/
theorem ofLine?_comp_chompReturn : ofLine? token comment ∘ chompReturn = ofLine? token comment := by
  funext part
  rw [Function.comp_apply, ofLine?, ofLine?, claim?_congr (trim_chompReturn part)]

theorem extract_eq_filterMap_split (token comment content : Text) :
    extract token comment content = (split '\n' content).filterMap (ofLine? token comment) := by
  obtain ⟨closed, last, hsplit⟩ := exists_split content
  have hempty : ofLine? token comment [] = none := by
    refine Option.eq_none_iff_forall_ne_some.mpr fun payload h => ?_
    obtain ⟨hclaim, hne⟩ := ofLine?_eq_some_iff.mp h
    exact hne (List.subset_nil.mp (subset_of_claim? hclaim))
  rw [extract, lines_of_split hsplit, hsplit, List.filterMap_append, List.filterMap_append,
    List.filterMap_map, ofLine?_comp_chompReturn]
  by_cases hlast : last = []
  · simp [hlast, hempty]
  · rw [if_neg hlast]

theorem extract_append (token comment first second : Text) :
    extract token comment (first ++ '\n' :: second) =
      extract token comment first ++ extract token comment second := by
  simp only [extract_eq_filterMap_split, split_append, List.filterMap_append]

theorem extract_of_not_mem {content : Text} (h : '\n' ∉ content) :
    extract token comment content = (ofLine? token comment content).toList := by
  rw [extract_eq_filterMap_split, split_of_not_mem h]
  cases hline : ofLine? token comment content <;> simp [hline]

theorem extract_dropReturns (token comment content : Text) :
    extract token comment content.dropReturns = extract token comment content := by
  obtain ⟨closed, last, hsplit⟩ := exists_split content
  rw [extract_eq_filterMap_split, extract_eq_filterMap_split, split_dropReturns hsplit, hsplit,
    List.filterMap_append, List.filterMap_append, List.filterMap_map, ofLine?_comp_chompReturn]

/-- Where mark and token begin with no blank, exactly the lines of the grammar bring a payload, each the
one that it carries, in their order. -/
theorem payloads_of_grammar {token comment : Text} (htoken : ∃ c ∈ token.head?, isBlank c = false)
    (hcomment : ∀ c ∈ comment.head?, isBlank c = false) (content : Text) :
    (∃ found : Text → Option Text,
      (∀ line payload, found line = some payload ↔ Carries token comment line payload) ∧
        extract token comment content = (content.splitOn '\n').filterMap found) ∧
    (∀ line p q, Carries token comment line p → Carries token comment line q → p = q) ∧
    extract token comment content.dropReturns = extract token comment content ∧
    ∀ first second, extract token comment (first ++ '\n' :: second) =
      extract token comment first ++ extract token comment second := by
  have hiff : ∀ line payload, ofLine? token comment line = some payload ↔
      Carries token comment line payload := fun line payload =>
    ⟨carries_of_ofLine?, ofLine?_of_carries htoken hcomment⟩
  refine ⟨⟨ofLine? token comment, hiff, ?_⟩, ?_, extract_dropReturns token comment content,
    extract_append token comment⟩
  · rw [extract_eq_filterMap_split, split_eq_splitOn]
  · intro line p q hp hq
    exact Option.some.inj (((hiff line p).mpr hp).symm.trans ((hiff line q).mpr hq))

/-- A text with both kinds of line endings, a line for a longer token, one without a payload, and blanks
beyond ASCII. -/
theorem payloads_of_mixed_text :
    let token := "%def".toList
    let comment := "--".toList
    let line := " --  %def b -- %def d".toList
    let content := "\t--%def\u3000a = 1 \r\n-- %define c\n-- %def\u00a0\r\n".toList ++ line
    (∃ c ∈ token.head?, isBlank c = false) ∧ (∀ c ∈ comment.head?, isBlank c = false) ∧
      extract token comment content = ["a = 1".toList, "b -- %def d".toList] ∧
      extract token comment (dropReturns content) = ["a = 1".toList, "b -- %def d".toList] ∧
      ∀ payload, Carries token comment line payload ↔ payload = "b -- %def d".toList := by
  intro token comment line content
  have htoken : ∃ c ∈ token.head?, isBlank c = false := ⟨'%', rfl, by decide⟩
  have hcomment : ∀ c ∈ comment.head?, isBlank c = false := by
    rintro _ ⟨⟩
    decide
  have hextract : extract token comment content = ["a = 1".toList, "b -- %def d".toList] := by
    decide +kernel
  obtain ⟨-, hunique, hendings, -⟩ := payloads_of_grammar htoken hcomment content
  have hcarries : Carries token comment line "b -- %def d".toList := by
    refine ⟨⟨" ".toList, "  ".toList, " ".toList, [], ?_⟩, by decide, ?_, ?_⟩
    · decide +kernel
    · rintro _ ⟨⟩
      decide
    · rintro _ ⟨⟩
      decide
  refine ⟨htoken, hcomment, hextract, hendings.trans hextract, fun payload => ⟨?_, ?_⟩⟩
  · exact fun h => hunique line _ _ h hcarries
  · rintro rfl
    exact hcarries

end Payload
end TemplateSplice
