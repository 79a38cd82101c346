import TemplateSplice.Proofs.Grammar
import TemplateSplice.Proofs.Reread

/-! Invalid bytes spoil their own line at most. A byte that goes on with a character is never below 0x80,
so a line feed ends whatever was begun before it, and the automaton stands between two characters behind
it as it did at the start. Bytes are thus decoded line by line, and payloads are read line by line from
what they decode to. Whether a file as a whole is valid decides nothing: where it is, both ways to decode
it give the same text. -/

namespace TemplateSplice

namespace Utf8

/-- Inside a character, only bytes from 0x80 on go on with it. -/
def State.Guarded : State → Prop
  | .ground => True
  | .inside _ _ low _ => 0x80 ≤ low

theorem guarded_start (b : UInt8) : (start b).2.Guarded := by
  unfold start
  split_ifs <;> simp [State.Guarded]

theorem guarded_step {s : State} (h : s.Guarded) (b : UInt8) : (step s b).2.Guarded := by
  cases s with
  | ground => exact guarded_start b
  | inside bits due low high =>
    rw [step]
    split_ifs
    · trivial
    · simp [State.Guarded]
    · exact guarded_start b

theorem step_newline {s : State} (h : s.Guarded) : step s 0x0A = (finish s ++ [some '\n'], .ground) := by
  cases s with
  | ground => rfl
  | inside bits due low high =>
    have hlow : ¬ low ≤ 0x0A := fun hle => absurd (UInt8.le_trans h hle) (by decide)
    rw [step, if_neg fun hb => hlow hb.1]
    rfl

theorem run_append_newline {s : State} (h : s.Guarded) (first second : Bytes) :
    run s (first ++ 0x0A :: second) = run s first ++ some '\n' :: run .ground second := by
  induction first generalizing s with
  | nil =>
    rw [List.nil_append, run.eq_2, step_newline h, run.eq_1, List.append_assoc]
    rfl
  | cons b rest ih =>
    rw [List.cons_append, run, run, ih (guarded_step h b), List.append_assoc]

theorem decodeLossy_append (first second : Bytes) :
    decodeLossy (first ++ 0x0A :: second) = decodeLossy first ++ '\n' :: decodeLossy second := by
  have hground : State.Guarded .ground := trivial
  rw [decodeLossy, pieces, run_append_newline hground, List.map_append]
  rfl

theorem decodeLossy_utf8 (t : Text) : decodeLossy t.utf8 = t := by
  rw [decodeLossy, pieces, run_ground_utf8, List.map_map]
  exact List.map_id t

/-- Valid bytes are decoded exactly, the others as well as can be. -/
def decode (bytes : Bytes) : Text :=
  (decode? bytes).getD (decodeLossy bytes)

theorem decode_eq (bytes : Bytes) : decode bytes = decodeLossy bytes := by
  rw [decode]
  cases h : decode? bytes with
  | none => rfl
  | some t => rw [decode?_eq_some_iff.mp h, decodeLossy_utf8, Option.getD_some]

end Utf8

def Payload.ofBytes (tag : Tag) (comment : Text) (bytes : Bytes) : List Text :=
  extract tag.token comment (Utf8.decode bytes)

theorem Payload.ofBytes_append (tag : Tag) (comment : Text) (first second : Bytes) :
    ofBytes tag comment (first ++ 0x0A :: second) =
      ofBytes tag comment first ++ ofBytes tag comment second := by
  simp only [ofBytes, Utf8.decode_eq, Utf8.decodeLossy_append, extract_append]

theorem Payload.ofBytes_utf8 (tag : Tag) (comment t : Text) :
    ofBytes tag comment t.utf8 = extract tag.token comment t := by
  rw [ofBytes, Utf8.decode_eq, Utf8.decodeLossy_utf8]

theorem FileTree.readExtension_of_stat {t : FileTree} {p : Path} {bytes : Bytes}
    (h : t.stat p = .ok (.file bytes)) : t.readExtension p = .ok (Utf8.decode bytes) := by
  have hread : t.read p = .ok bytes := bind_eq_ok.mpr ⟨_, h, rfl⟩
  rw [readExtension, hread, Utf8.decode_eq]

/-- What goes apart at a separator goes apart at all of them. -/
theorem eq_flatMap_splitOn {α β : Type} [BEq α] [LawfulBEq α] {f : List α → List β} {separator : α}
    (h : ∀ first second, f (first ++ separator :: second) = f first ++ f second) (l : List α) :
    f l = (l.splitOn separator).flatMap f := by
  have hjoin : ∀ parts : List (List α), parts ≠ [] →
      f ([separator].intercalate parts) = parts.flatMap f := by
    intro parts hne
    induction parts with
    | nil => exact absurd rfl hne
    | cons part rest ih =>
      by_cases hrest : rest = []
      · simp [hrest]
      · rw [List.intercalate_cons_of_ne_nil hrest, List.append_assoc, List.singleton_append, h,
          ih hrest, List.flatMap_cons]
  have hl : [separator].intercalate (l.splitOn separator) = l := List.intercalate_splitOn separator
  rw [← hjoin _ (List.splitOn_ne_nil _ _), hl]

/-- A file of any bytes can be read and scanned. Its lines are read one by one: what a line brings does
not depend on the bytes above and below it, and a line that is valid brings what its text does. -/
theorem payloads_line_by_line (tag : Tag) (comment : Text) :
    (∀ (t : FileTree) (p : Path) (bytes : Bytes), t.stat p = .ok (.file bytes) →
      t.extract p tag comment = .ok (Payload.ofBytes tag comment bytes) ∧
        ∀ c : Catalog, Scan.ofFile t c comment p = .ok (c.scan p comment (Utf8.decode bytes))) ∧
    (∀ first second, Payload.ofBytes tag comment (first ++ 0x0A :: second) =
      Payload.ofBytes tag comment first ++ Payload.ofBytes tag comment second) ∧
    (∀ bytes, Payload.ofBytes tag comment bytes =
      (bytes.splitOn 0x0A).flatMap (Payload.ofBytes tag comment)) ∧
    (∀ text : Text, Payload.ofBytes tag comment text.utf8 = Payload.extract tag.token comment text) ∧
    ∀ (above below : Bytes) (line : Text), '\n' ∉ line →
      Payload.ofBytes tag comment (above ++ 0x0A :: (line.utf8 ++ 0x0A :: below)) =
        Payload.ofBytes tag comment above ++ (Payload.ofLine? tag.token comment line).toList ++
          Payload.ofBytes tag comment below := by
  refine ⟨fun t p bytes h => ?_, Payload.ofBytes_append tag comment, fun bytes => ?_,
    Payload.ofBytes_utf8 tag comment, fun above below line hline => ?_⟩
  · have hread := FileTree.readExtension_of_stat h
    exact ⟨bind_eq_ok.mpr ⟨_, hread, rfl⟩, fun c => bind_eq_ok.mpr ⟨_, hread, rfl⟩⟩
  · exact eq_flatMap_splitOn (Payload.ofBytes_append tag comment) bytes
  · rw [Payload.ofBytes_append, Payload.ofBytes_append, Payload.ofBytes_utf8,
      Payload.extract_of_not_mem hline, List.append_assoc]

/-- A line that ends inside a character, above one that is valid. -/
theorem payloads_below_a_spoilt_line :
    let cut : Bytes := Text.utf8 "-- %def a = ".toList ++ [0xE2, 0x82]
    let line := "-- %def b = 2".toList
    let file := (Text.utf8 "A.hs".toList :: [], Entry.file (cut ++ 0x0A :: (Text.utf8 line ++ 0x0A :: [])))
    let t := FileTree.listed [] [([], .directory), file] (by decide) (by decide) (by decide)
    '\n' ∉ line ∧ t.stat "A.hs".toList = .ok file.2 ∧
      t.extract "A.hs".toList .definition "--".toList = .ok ["a = \uFFFD".toList, "b = 2".toList] := by
  intro cut line file t
  obtain ⟨hfile, -, -, -, hline⟩ := payloads_line_by_line .definition "--".toList
  have hstat : t.stat "A.hs".toList = .ok file.2 := rfl
  have hnone : '\n' ∉ line := by decide
  refine ⟨hnone, hstat, (hfile t _ _ hstat).1.trans (congrArg Except.ok ?_)⟩
  rw [hline cut [] line hnone]
  decide +kernel

end TemplateSplice
