import TemplateSplice.Proofs.TaggedLine
import TemplateSplice.Scan

/-! No line is for two tags. What follows the comment mark and its blanks begins with the token, and the
token ends where the first blank is: so the line names its tag, also where one token begins another, and
whatever the mark is. A scan, which goes through the text once for each tag, therefore counts every line
that brings a payload once; and since overriding a rule leaves its tag alone, it finds the same with every
catalog. -/

namespace TemplateSplice

namespace Tag

theorem isBlank_of_mem_token {tag : Tag} {c : Char} (h : c ∈ tag.token) : Text.isBlank c = false := by
  have hnone : tag.token.any Text.isBlank = false := by cases tag <;> decide
  simpa using List.any_eq_false.mp hnone c h

theorem token_injective {s t : Tag} (h : s.token = t.token) : s = t :=
  name_injective (List.cons.inj h).2

theorem takeWhile_token_append (tag : Tag) {rest : Text} (h : ∀ c ∈ rest.head?, Text.isBlank c = true) :
    (tag.token ++ rest).takeWhile (!Text.isBlank ·) = tag.token := by
  have hrest : rest.takeWhile (!Text.isBlank ·) = [] := by
    cases rest with
    | nil => rfl
    | cons c rest => rw [List.takeWhile_cons_of_neg (by simp [h c rfl])]
  rw [List.takeWhile_append_of_pos fun c hc => by simp [isBlank_of_mem_token hc], hrest, List.append_nil]

end Tag

namespace Payload

variable {comment line : Text}

theorem tag_unique {s t : Tag} {p q : Text} (hs : claim? s.token comment line = some p)
    (ht : claim? t.token comment line = some q) : s = t := by
  obtain ⟨body, rest, hline, hbody, hblank, -⟩ := claim?_eq_some_iff.mp hs
  obtain ⟨body', rest', hline', hbody', hblank', -⟩ := claim?_eq_some_iff.mp ht
  obtain rfl : body = body' := List.append_cancel_left (hline.symm.trans hline')
  apply Tag.token_injective
  rw [← s.takeWhile_token_append hblank, ← hbody, hbody', t.takeWhile_token_append hblank']

end Payload

/-- Kinds that have no element in common are counted together as they are one by one. -/
theorem foldr_countP {α β : Type} {kinds : List β} {p : β → α → Bool}
    (h : kinds.Pairwise fun s t => ∀ x, p s x = true → p t x = false) (l : List α) :
    (kinds.map fun kind => l.countP (p kind)).foldr (· + ·) 0 =
      l.countP fun x => kinds.any (p · x) := by
  induction kinds with
  | nil => simp
  | cons kind rest ih =>
    obtain ⟨hkind, hrest⟩ := List.pairwise_cons.mp h
    have hnone : ∀ x, p kind x = true → rest.any (p · x) = false := fun x hx =>
      List.any_eq_false.mpr fun other hother => by simp [hkind other hother x hx]
    rw [List.map_cons, List.foldr_cons, ih hrest]
    clear ih h hrest
    induction l with
    | nil => rfl
    | cons x l ih =>
      rw [List.countP_cons, List.countP_cons, List.countP_cons, ← ih, List.any_cons]
      cases hx : p kind x with
      | true =>
        rw [hnone x hx]
        simp only [Bool.true_or, if_true, Bool.false_eq_true, if_false]
        omega
      | false =>
        simp only [Bool.false_or, Bool.false_eq_true, if_false]
        omega

namespace Scan

theorem payloadCount_ofContent (file : Path) (comment content : Text) :
    (ofContent file comment content).payloadCount =
      content.lines.countP fun line =>
        Tag.all.any fun tag => (Payload.ofLine? tag.token comment line).isSome := by
  have hapart : Tag.all.Pairwise fun s t => ∀ line,
      (Payload.ofLine? s.token comment line).isSome = true →
        (Payload.ofLine? t.token comment line).isSome = false := by
    have hnodup : Tag.all.Nodup := by decide
    refine hnodup.imp fun {s t} hne line hs => ?_
    obtain ⟨p, hp⟩ := Option.isSome_iff_exists.mp hs
    rw [← Bool.not_eq_true, Option.isSome_iff_exists]
    rintro ⟨q, hq⟩
    exact hne (Payload.tag_unique (Payload.ofLine?_eq_some_iff.mp hp).1
      (Payload.ofLine?_eq_some_iff.mp hq).1)
  -- a tag without payloads has no entry, and would add nothing
  have hentries : ∀ tags : List Tag,
      ((tags.filter (Payload.extract ·.token comment content ≠ [])).map fun tag =>
        (Payload.extract tag.token comment content).length).foldr (· + ·) 0 =
      (tags.map fun tag => (Payload.extract tag.token comment content).length).foldr (· + ·) 0 := by
    intro tags
    induction tags with
    | nil => rfl
    | cons tag rest ih =>
      by_cases h : Payload.extract tag.token comment content = []
      · rw [List.filter_cons_of_neg (by simpa using h), ih, List.map_cons, List.foldr_cons, h,
          List.length_nil, Nat.zero_add]
      · rw [List.filter_cons_of_pos (by simpa using h), List.map_cons, List.foldr_cons, ih,
          List.map_cons, List.foldr_cons]
  rw [← foldr_countP hapart, payloadCount, payloads_ofContent, List.map_map]
  refine (hentries Tag.all).trans (congrArg (List.foldr _ _) (List.map_congr_left fun tag _ => ?_))
  rw [Payload.extract, List.length_filterMap_eq_countP]

end Scan

/-- No line is claimed by two tags, and a scan has for every tag the payloads of its lines, in the order
of the tags and whatever the overrides: as many in all as there are lines that bring one. -/
theorem lines_partitioned_by_scan (overrides : List (Tag × Override)) (file : Path)
    (comment content : Text) :
    let scan := (Catalog.withOverrides overrides).scan file comment content
    (∀ (line : Text) (s t : Tag), Payload.claim? s.token comment line ≠ none →
      Payload.claim? t.token comment line ≠ none → s = t) ∧
    (∀ tag found, (tag, found) ∈ scan.payloads ↔
      found ≠ [] ∧ found = Payload.extract tag.token comment content) ∧
    (scan.payloads.map (·.1)).Sublist Tag.all ∧
    scan.payloadCount = content.lines.countP (fun line =>
      Tag.all.any fun tag => (Payload.ofLine? tag.token comment line).isSome) ∧
    scan = Catalog.builtin.scan file comment content := by
  intro scan
  have hscan : scan = Scan.ofContent file comment content := Catalog.scan_eq _ file comment content
  rw [hscan, Scan.payloads_ofContent]
  refine ⟨fun line s t hs ht => ?_, fun tag found => ?_, ?_, Scan.payloadCount_ofContent file comment content,
    (Catalog.scan_eq _ file comment content).symm⟩
  · obtain ⟨p, hp⟩ := Option.ne_none_iff_exists'.mp hs
    obtain ⟨q, hq⟩ := Option.ne_none_iff_exists'.mp ht
    exact Payload.tag_unique hp hq
  · rw [List.mem_map]
    constructor
    · rintro ⟨tag, htag, heq⟩
      cases heq
      exact ⟨by simpa using (List.mem_filter.mp htag).2, rfl⟩
    · rintro ⟨hne, rfl⟩
      exact ⟨tag, List.mem_filter.mpr ⟨tag.mem_all, by simpa using hne⟩, rfl⟩
  · have hkeys (tags : List Tag) : (tags.map fun tag =>
        (tag, Payload.extract tag.token comment content)).map (·.1) = tags := by
      rw [List.map_map]
      exact List.map_id _
    rw [hkeys]
    exact List.filter_sublist

example : (Catalog.builtin.scan "A.hs".toList "--".toList "-- %keybindlist x".toList).payloads =
    [(.keyBindingList, ["x".toList])] := by
  decide

end TemplateSplice
