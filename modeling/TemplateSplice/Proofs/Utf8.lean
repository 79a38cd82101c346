import Mathlib.Tactic.SplitIfs
import TemplateSplice.Text.Utf8

/-! Decoding is the inverse of encoding: bytes decode to a text exactly when they are its encoding. So
a name that is valid UTF-8 and its text are the same thing, and what is written is read back.

A first byte says how many follow and which values the second may have; these bounds keep out overlong
forms, surrogates and values that are no character. `start_one` to `start_none` cover all first bytes,
and both directions go through them. -/

namespace TemplateSplice.Utf8

theorem start_one {a : UInt8} (h : a.toNat < 0x80) :
    start a = ([some (Char.ofNat a.toNat)], .ground) := by
  have ha : a < 0x80 := UInt8.lt_iff_toNat_lt.mpr h
  simp only [start, if_pos ha]

theorem start_two {a : UInt8} (h : 0xC2 ≤ a.toNat) (h' : a.toNat < 0xE0) :
    start a = ([], .inside (a.toNat - 0xC0) 1 0x80 0xBF) := by
  simp only [start, UInt8.lt_iff_toNat_lt]
  rw [if_neg (by simp; omega), if_neg (by simp; omega), if_pos (by simpa using h')]

theorem start_three {a : UInt8} (h : 0xE0 ≤ a.toNat) (h' : a.toNat < 0xF0) :
    start a = ([], .inside (a.toNat - 0xE0) 2 (if a.toNat = 0xE0 then 0xA0 else 0x80)
      (if a.toNat = 0xED then 0x9F else 0xBF)) := by
  simp only [start, UInt8.lt_iff_toNat_lt, ← UInt8.toNat_inj]
  rw [if_neg (by simp; omega), if_neg (by simp; omega), if_neg (by simp; omega)]
  by_cases h0 : a.toNat = 0xE0
  · simp [h0]
  by_cases h1 : a.toNat = 0xED
  · simp [h1]
  · simp [h0, h1]; omega

theorem start_four {a : UInt8} (h : 0xF0 ≤ a.toNat) (h' : a.toNat < 0xF5) :
    start a = ([], .inside (a.toNat - 0xF0) 3 (if a.toNat = 0xF0 then 0x90 else 0x80)
      (if a.toNat = 0xF4 then 0x8F else 0xBF)) := by
  simp only [start, UInt8.lt_iff_toNat_lt, ← UInt8.toNat_inj]
  rw [if_neg (by simp; omega), if_neg (by simp; omega), if_neg (by simp; omega),
    if_neg (by simp; omega), if_neg (by simp; omega), if_neg (by simp; omega)]
  by_cases h0 : a.toNat = 0xF0
  · simp [h0]
  by_cases h1 : a.toNat = 0xF4
  · simp [h1]
  · simp [h0, h1]; omega

theorem start_none {a : UInt8} (h : 0x80 ≤ a.toNat ∧ a.toNat < 0xC2 ∨ 0xF5 ≤ a.toNat) :
    start a = ([none], .ground) := by
  simp only [start, UInt8.lt_iff_toNat_lt, ← UInt8.toNat_inj]
  rw [if_neg (by simp; omega)]
  split_ifs <;> simp_all <;> omega

/-- A byte within the bounds goes on with the character and, if it is the last one due, ends it. -/
theorem run_inside {bits due : Nat} {low high b : UInt8} (hl : low.toNat ≤ b.toNat)
    (hh : b.toNat ≤ high.toNat) (rest : Bytes) :
    run (.inside bits due low high) (b :: rest) =
      if due ≤ 1 then some (Char.ofNat (bits * 64 + (b.toNat - 0x80))) :: run .ground rest
      else run (.inside (bits * 64 + (b.toNat - 0x80)) (due - 1) 0x80 0xBF) rest := by
  have hb : low ≤ b ∧ b ≤ high := ⟨UInt8.le_iff_toNat_le.mpr hl, UInt8.le_iff_toNat_le.mpr hh⟩
  simp only [run, step, if_pos hb]
  split_ifs <;> rfl

/-- Only such a byte can follow if there is to be no spoilt piece. -/
theorem inside_of_mapM {bits due : Nat} {low high : UInt8} {bytes : Bytes} {t : Text}
    (h : (run (.inside bits due low high) bytes).mapM id = some t) :
    ∃ b rest, bytes = b :: rest ∧ low.toNat ≤ b.toNat ∧ b.toNat ≤ high.toNat := by
  cases bytes with
  | nil => simp [run, finish] at h
  | cons b rest =>
    by_cases hb : low ≤ b ∧ b ≤ high
    · exact ⟨b, rest, rfl, UInt8.le_iff_toNat_le.mp hb.1, UInt8.le_iff_toNat_le.mp hb.2⟩
    · simp [run, step, if_neg hb] at h

section
variable {v : Nat}

theorem toNat_ofNat_of_isValidChar (h : v.isValidChar) : (Char.ofNat v).val.toNat = v := by
  unfold Char.ofNat
  rw [dif_pos h]
  rfl

theorem utf8EncodeChar_one (h : v < 0x80) :
    String.utf8EncodeChar (Char.ofNat v) = [UInt8.ofNat v] := by
  have hv : v.isValidChar := Or.inl (by omega)
  simp only [String.utf8EncodeChar, toNat_ofNat_of_isValidChar hv]
  rw [if_pos (by omega)]

theorem utf8EncodeChar_two (h : 0x80 ≤ v) (h' : v < 0x800) :
    String.utf8EncodeChar (Char.ofNat v) =
      [UInt8.ofNat (v / 64 + 0xC0), UInt8.ofNat (v % 64 + 0x80)] := by
  have hv : v.isValidChar := Or.inl (by omega)
  simp only [String.utf8EncodeChar, toNat_ofNat_of_isValidChar hv]
  rw [if_neg (by omega), if_pos (by omega), Nat.mod_eq_of_lt (by omega : v / 64 < 0x20)]

theorem utf8EncodeChar_three (h : 0x800 ≤ v) (h' : v < 0x10000) (hv : v.isValidChar) :
    String.utf8EncodeChar (Char.ofNat v) =
      [UInt8.ofNat (v / 4096 + 0xE0), UInt8.ofNat (v / 64 % 64 + 0x80),
        UInt8.ofNat (v % 64 + 0x80)] := by
  simp only [String.utf8EncodeChar, toNat_ofNat_of_isValidChar hv]
  rw [if_neg (by omega), if_neg (by omega), if_pos (by omega),
    Nat.mod_eq_of_lt (by omega : v / 4096 < 0x10)]

theorem utf8EncodeChar_four (h : 0x10000 ≤ v) (h' : v < 0x110000) :
    String.utf8EncodeChar (Char.ofNat v) =
      [UInt8.ofNat (v / 262144 + 0xF0), UInt8.ofNat (v / 4096 % 64 + 0x80),
        UInt8.ofNat (v / 64 % 64 + 0x80), UInt8.ofNat (v % 64 + 0x80)] := by
  have hv : v.isValidChar := Or.inr ⟨by omega, h'⟩
  simp only [String.utf8EncodeChar, toNat_ofNat_of_isValidChar hv]
  rw [if_neg (by omega), if_neg (by omega), if_neg (by omega),
    Nat.mod_eq_of_lt (by omega : v / 262144 < 0x08)]

end

theorem toNat_ofNat_of_lt {n : Nat} (h : n < 256) : (UInt8.ofNat n).toNat = n := by
  simp [Nat.mod_eq_of_lt h]

theorem run_utf8EncodeChar (c : Char) (rest : Bytes) :
    run .ground (String.utf8EncodeChar c ++ rest) = some c :: run .ground rest := by
  have hv : c.toNat.isValidChar := c.valid
  have hc : Char.ofNat c.toNat = c := Char.ofNat_toNat c
  have hrange : c.toNat < 0xD800 ∨ 0xDFFF < c.toNat ∧ c.toNat < 0x110000 := hv
  generalize c.toNat = v at *
  subst hc
  rcases Nat.lt_or_ge v 0x80 with h1 | h1
  · have ha := toNat_ofNat_of_lt (n := v) (by omega)
    rw [utf8EncodeChar_one h1, List.singleton_append, run, step, start_one (by omega), ha]
    rfl
  rcases Nat.lt_or_ge v 0x800 with h2 | h2
  · have ha := toNat_ofNat_of_lt (n := v / 64 + 0xC0) (by omega)
    have hb := toNat_ofNat_of_lt (n := v % 64 + 0x80) (by omega)
    rw [utf8EncodeChar_two h1 h2, List.cons_append, run, step, start_two (by omega) (by omega),
      List.nil_append, List.singleton_append, run_inside (by rw [hb]; simp) (by rw [hb]; simp; omega),
      if_pos (by omega), ha, hb]
    have hbits : (v / 64 + 0xC0 - 0xC0) * 64 + (v % 64 + 0x80 - 0x80) = v := by omega
    rw [hbits]
  rcases Nat.lt_or_ge v 0x10000 with h3 | h3
  · have ha := toNat_ofNat_of_lt (n := v / 4096 + 0xE0) (by omega)
    have hb := toNat_ofNat_of_lt (n := v / 64 % 64 + 0x80) (by omega)
    have hd := toNat_ofNat_of_lt (n := v % 64 + 0x80) (by omega)
    rw [utf8EncodeChar_three h2 h3 hv, List.cons_append, run, step,
      start_three (by omega) (by omega), List.nil_append, List.cons_append, run_inside, if_neg (by omega),
      List.singleton_append, run_inside (by rw [hd]; simp) (by rw [hd]; simp; omega),
      if_pos (by omega), ha, hb, hd]
    · have hbits : ((v / 4096 + 0xE0 - 0xE0) * 64 + (v / 64 % 64 + 0x80 - 0x80)) * 64 +
          (v % 64 + 0x80 - 0x80) = v := by omega
      rw [hbits]
    · split_ifs <;> simp <;> omega
    · split_ifs <;> simp <;> omega
  · have ha := toNat_ofNat_of_lt (n := v / 262144 + 0xF0) (by omega)
    have hb := toNat_ofNat_of_lt (n := v / 4096 % 64 + 0x80) (by omega)
    have hd := toNat_ofNat_of_lt (n := v / 64 % 64 + 0x80) (by omega)
    have he := toNat_ofNat_of_lt (n := v % 64 + 0x80) (by omega)
    rw [utf8EncodeChar_four h3 (by omega), List.cons_append, run, step,
      start_four (by omega) (by omega), List.nil_append, List.cons_append, run_inside,
      if_neg (by omega), List.cons_append, run_inside (by rw [hd]; simp) (by rw [hd]; simp; omega),
      if_neg (by omega), List.singleton_append,
      run_inside (by rw [he]; simp) (by rw [he]; simp; omega), if_pos (by omega), ha, hb, hd, he]
    · have hbits : (((v / 262144 + 0xF0 - 0xF0) * 64 + (v / 4096 % 64 + 0x80 - 0x80)) * 64 +
          (v / 64 % 64 + 0x80 - 0x80)) * 64 + (v % 64 + 0x80 - 0x80) = v := by omega
      rw [hbits]
    · split_ifs <;> simp <;> omega
    · split_ifs <;> simp <;> omega

theorem ofNat_eq {n : Nat} {a : UInt8} (h : n = a.toNat) : UInt8.ofNat n = a := by
  rw [h, UInt8.ofNat_toNat]

theorem run_ground_utf8 (t : Text) : run .ground t.utf8 = t.map some := by
  induction t with
  | nil => rfl
  | cons c t ih => rw [Text.utf8, List.flatMap_cons, run_utf8EncodeChar, ← Text.utf8, ih, List.map_cons]

theorem mapM_some_cons {c : Char} {xs : List (Option Char)} {t : Text}
    (h : (some c :: xs).mapM id = some t) : ∃ t', t = c :: t' ∧ xs.mapM id = some t' := by
  rw [List.mapM_cons] at h
  cases hx : xs.mapM id with
  | none => simp [hx] at h
  | some t' => exact ⟨t', by simpa [hx] using h.symm, rfl⟩

/-- Without a spoilt piece the bytes begin with the encoding of a character: the first fixes their
number and bounds, and the values within these are those with an encoding of that length. -/
theorem exists_utf8EncodeChar {a : UInt8} {rest : Bytes} {t : Text}
    (h : (run .ground (a :: rest)).mapM id = some t) :
    ∃ c rest', a :: rest = String.utf8EncodeChar c ++ rest' := by
  have ha := a.toNat_lt
  rcases Nat.lt_or_ge a.toNat 0x80 with h1 | h1
  · refine ⟨Char.ofNat a.toNat, rest, ?_⟩
    rw [utf8EncodeChar_one h1, UInt8.ofNat_toNat]
    rfl
  rcases Nat.lt_or_ge a.toNat 0xC2 with h2 | h2
  · simp [run, step, start_none (Or.inl ⟨h1, h2⟩)] at h
  rcases Nat.lt_or_ge a.toNat 0xE0 with h3 | h3
  · rw [run, step, start_two h2 h3, List.nil_append] at h
    obtain ⟨b, rest, rfl, hbl, hbh⟩ := inside_of_mapM h
    simp at hbl hbh
    refine ⟨Char.ofNat ((a.toNat - 0xC0) * 64 + (b.toNat - 0x80)), rest, ?_⟩
    rw [utf8EncodeChar_two (by omega) (by omega)]
    simp only [List.cons_append, List.nil_append, List.cons.injEq, and_true]
    exact ⟨(ofNat_eq (by omega)).symm, (ofNat_eq (by omega)).symm⟩
  rcases Nat.lt_or_ge a.toNat 0xF0 with h4 | h4
  · rw [run, step, start_three h3 h4, List.nil_append] at h
    obtain ⟨b, rest, rfl, hbl, hbh⟩ := inside_of_mapM h
    rw [run_inside hbl hbh, if_neg (by omega)] at h
    obtain ⟨d, rest, rfl, hdl, hdh⟩ := inside_of_mapM h
    have hb : 0x80 ≤ b.toNat ∧ b.toNat ≤ 0xBF ∧ (a.toNat = 0xE0 → 0xA0 ≤ b.toNat) ∧
        (a.toNat = 0xED → b.toNat ≤ 0x9F) := by
      split_ifs at hbl hbh <;> simp at hbl hbh <;> omega
    simp at hdl hdh
    refine ⟨Char.ofNat (((a.toNat - 0xE0) * 64 + (b.toNat - 0x80)) * 64 + (d.toNat - 0x80)), rest, ?_⟩
    rw [utf8EncodeChar_three (by omega) (by omega)]
    · simp only [List.cons_append, List.nil_append, List.cons.injEq, and_true]
      exact ⟨(ofNat_eq (by omega)).symm, (ofNat_eq (by omega)).symm, (ofNat_eq (by omega)).symm⟩
    · unfold Nat.isValidChar
      omega
  rcases Nat.lt_or_ge a.toNat 0xF5 with h5 | h5
  · rw [run, step, start_four h4 h5, List.nil_append] at h
    obtain ⟨b, rest, rfl, hbl, hbh⟩ := inside_of_mapM h
    rw [run_inside hbl hbh, if_neg (by omega)] at h
    obtain ⟨d, rest, rfl, hdl, hdh⟩ := inside_of_mapM h
    rw [run_inside hdl hdh, if_neg (by omega)] at h
    obtain ⟨e, rest, rfl, hel, heh⟩ := inside_of_mapM h
    have hb : 0x80 ≤ b.toNat ∧ b.toNat ≤ 0xBF ∧ (a.toNat = 0xF0 → 0x90 ≤ b.toNat) ∧
        (a.toNat = 0xF4 → b.toNat ≤ 0x8F) := by
      split_ifs at hbl hbh <;> simp at hbl hbh <;> omega
    simp at hdl hdh hel heh
    refine ⟨Char.ofNat ((((a.toNat - 0xF0) * 64 + (b.toNat - 0x80)) * 64 + (d.toNat - 0x80)) * 64 +
      (e.toNat - 0x80)), rest, ?_⟩
    rw [utf8EncodeChar_four (by omega) (by omega)]
    simp only [List.cons_append, List.nil_append, List.cons.injEq, and_true]
    exact ⟨(ofNat_eq (by omega)).symm, (ofNat_eq (by omega)).symm, (ofNat_eq (by omega)).symm,
      (ofNat_eq (by omega)).symm⟩
  · simp [run, step, start_none (Or.inr h5)] at h

theorem eq_utf8_of_mapM {bytes : Bytes} {t : Text} (h : (run .ground bytes).mapM id = some t) :
    bytes = t.utf8 := by
  -- on the length, since a character takes up to four bytes off the front
  induction hn : bytes.length using Nat.strongRecOn generalizing bytes t with
  | ind n ih =>
    cases bytes with
    | nil =>
      have ht : t = [] := by simpa [run, finish] using h.symm
      rw [ht]
      rfl
    | cons a rest =>
      obtain ⟨c, rest', hfront⟩ := exists_utf8EncodeChar h
      rw [hfront, run_utf8EncodeChar] at h
      obtain ⟨t', rfl, ht'⟩ := mapM_some_cons h
      have hlt : rest'.length < n := by
        have hc : 0 < c.utf8Size := c.utf8Size_pos
        rw [← hn, hfront, List.length_append, String.length_utf8EncodeChar]
        omega
      rw [hfront, ih _ hlt ht' rfl]
      rfl

theorem decode?_eq_some_iff {bytes : Bytes} {t : Text} : decode? bytes = some t ↔ bytes = t.utf8 := by
  constructor
  · exact eq_utf8_of_mapM
  · rintro rfl
    rw [decode?, pieces, run_ground_utf8, List.mapM_map]
    exact (List.mapM_pure (f := id)).trans (congrArg some t.map_id)

end TemplateSplice.Utf8
