import TemplateSplice.Command.Report
import TemplateSplice.Toml.Quoted

/-! Printed documents read back. The reader takes JSON that is written without blanks, of the kinds of values
that a document has, with every way to write a string. A string is read one character after the other, each
by itself or by an escape, and a value along its own parts; so what is printed of a document is read back as
that document, whatever comes behind it. -/

namespace TemplateSplice

namespace Json

def numbered? (digits : Text) : Option Char :=
  if digits.all Toml.Scalar.isHexDigit then
    Toml.character? (digits.foldl (fun n c => n * 16 + Toml.hexValue c) 0)
  else none

def short? : Char → Option Char
  | '"' => some '"'
  | '\\' => some '\\'
  | '/' => some '/'
  | 'b' => some '\x08'
  | 'f' => some '\x0c'
  | 'n' => some '\n'
  | 'r' => some '\r'
  | 't' => some '\t'
  | _ => none

/-- A string, read from behind its opening quote, and what follows it. -/
def readString : Text → Option (Text × Text)
  | [] => none
  | '"' :: rest => some ([], rest)
  | '\\' :: 'u' :: a :: b :: c :: d :: rest =>
    (numbered? [a, b, c, d]).bind fun c => (readString rest).map fun (text, rest) => (c :: text, rest)
  | '\\' :: letter :: rest =>
    (short? letter).bind fun c => (readString rest).map fun (text, rest) => (c :: text, rest)
  | c :: rest =>
    if c < ' ' then none else (readString rest).map fun (text, rest) => (c :: text, rest)

mutual

/-- A value that is not nested deeper than `depth`, and what follows it. -/
def readValue (depth : Nat) (t : Text) : Option (Json × Text) :=
  match depth, t with
  | 0, _ => none
  | _ + 1, 'n' :: 'u' :: 'l' :: 'l' :: rest => some (null, rest)
  | _ + 1, '"' :: rest => (readString rest).map fun (text, rest) => (string text, rest)
  | _ + 1, '[' :: ']' :: rest => some (array [], rest)
  | depth + 1, '[' :: rest => (readItems depth rest).map fun (items, rest) => (array items, rest)
  | _ + 1, '\x7b' :: '\x7d' :: rest => some (object [], rest)
  | depth + 1, '\x7b' :: rest => (readFields depth rest).map fun (fields, rest) => (object fields, rest)
  | _ + 1, _ => none

/-- The items of an array, one at least, up to its closing bracket. -/
def readItems (depth : Nat) (t : Text) : Option (List Json × Text) :=
  match depth with
  | 0 => none
  | depth + 1 =>
    match readValue depth t with
    | some (item, ',' :: rest) => (readItems depth rest).map fun (items, rest) => (item :: items, rest)
    | some (item, ']' :: rest) => some ([item], rest)
    | _ => none

def readFields (depth : Nat) (t : Text) : Option (List (Text × Json) × Text) :=
  match depth, t with
  | depth + 1, '"' :: t =>
    match readString t with
    | some (key, ':' :: t) =>
      match readValue depth t with
      | some (item, ',' :: rest) =>
        (readFields depth rest).map fun (fields, rest) => ((key, item) :: fields, rest)
      | some (item, '\x7d' :: rest) => some ([(key, item)], rest)
      | _ => none
    | _ => none
  | _, _ => none

end

def read? (t : Text) : Option Json :=
  match readValue t.length t with
  | some (j, []) => some j
  | some (j, ['\n']) => some j
  | _ => none

/-! Strings. -/

def spelled? : Text → Option Char
  | [slash, letter, a, b, c, d] => if slash = '\\' ∧ letter = 'u' then numbered? [a, b, c, d] else none
  | [slash, letter] => if slash = '\\' then short? letter else none
  | _ => none

theorem readString_of_spelled {t : Text} {c : Char} (h : spelled? t = some c) (rest : Text) :
    readString (t ++ rest) = (readString rest).map fun (text, rest) => (c :: text, rest) := by
  unfold spelled? at h
  split at h
  · next slash letter a b c d =>
    split at h
    · next hnumbered =>
      obtain ⟨rfl, rfl⟩ := hnumbered
      show readString ('\\' :: 'u' :: a :: b :: c :: d :: rest) = _
      rw [readString, h, Option.bind_some]
    · cases h
  · next slash letter =>
    split at h
    · next hslash =>
      subst hslash
      have hletter : letter ≠ 'u' := by
        rintro rfl
        cases h
      show readString ('\\' :: letter :: rest) = _
      rw [readString.eq_4 letter rest (by simp [hletter]), h, Option.bind_some]
    · cases h
  · cases h

theorem readString_cons {c : Char} (hquote : c ≠ '"') (hbackslash : c ≠ '\\') (hcontrol : ¬ c < ' ')
    (rest : Text) :
    readString (c :: rest) = (readString rest).map fun (text, rest) => (c :: text, rest) := by
  rw [readString.eq_5 c rest, if_neg hcontrol]
  all_goals simp_all

theorem spelled?_escape {c : Char} (h : c = '"' ∨ c = '\\' ∨ c < ' ') : spelled? (escape c) = some c := by
  rcases h with rfl | rfl | hcontrol
  · rfl
  · rfl
  · have hall : ∀ n : Fin 32, spelled? (escape (Char.ofNat n)) = some (Char.ofNat n) := by decide
    have := hall ⟨c.toNat, hcontrol⟩
    rwa [Char.ofNat_toNat] at this

theorem escape_of_plain {c : Char} (hquote : c ≠ '"') (hbackslash : c ≠ '\\') (hcontrol : ¬ c < ' ') :
    escape c = [c] := by
  have hne : ∀ d : Char, d < ' ' → c ≠ d := by
    rintro d hd rfl
    exact hcontrol hd
  simp [escape, hquote, hbackslash, hcontrol, hne '\n' (by decide), hne '\r' (by decide),
    hne '\t' (by decide), hne '\x08' (by decide), hne '\x0c' (by decide)]

theorem readString_escape (c : Char) (rest : Text) :
    readString (escape c ++ rest) = (readString rest).map fun (text, rest) => (c :: text, rest) := by
  by_cases h : c = '"' ∨ c = '\\' ∨ c < ' '
  · exact readString_of_spelled (spelled?_escape h) rest
  · obtain ⟨hquote, hbackslash, hcontrol⟩ : c ≠ '"' ∧ c ≠ '\\' ∧ ¬ c < ' ' := by
      simpa only [not_or] using h
    rw [escape_of_plain hquote hbackslash hcontrol]
    exact readString_cons hquote hbackslash hcontrol rest

theorem readString_quote (t rest : Text) :
    readString (t.flatMap escape ++ '"' :: rest) = some (t, rest) := by
  induction t with
  | nil => rfl
  | cons c t ih => rw [List.flatMap_cons, List.append_assoc, readString_escape, ih]; rfl

/-! Values. -/

theorem quote_append (t rest : Text) : quote t ++ rest = '"' :: (t.flatMap escape ++ '"' :: rest) := by
  simp [quote]

/-- A value begins like no closing bracket. -/
theorem exists_render_eq_cons (j : Json) : ∃ c rest, render j = c :: rest ∧ c ≠ ']' := by
  cases j with
  | null => exact ⟨_, _, rfl, by decide⟩
  | string text => exact ⟨_, _, rfl, by decide⟩
  | array items => exact ⟨_, _, by rw [render]; rfl, by decide⟩
  | object fields => exact ⟨_, _, by rw [render]; rfl, by decide⟩

def tailed (first : Text) (parts : List Text) : Text :=
  first ++ parts.flatMap (',' :: ·)

theorem join_cons (first : Text) (parts : List Text) :
    Text.join [','] (first :: parts) = tailed first parts := by
  induction parts generalizing first with
  | nil => simp [Text.join, List.intercalate, tailed]
  | cons next parts ih =>
    have : Text.join [','] (first :: next :: parts) = first ++ ',' :: Text.join [','] (next :: parts) := by
      simp [Text.join, List.intercalate]
    rw [this, ih]
    simp [tailed]

theorem tailed_cons (first next : Text) (parts : List Text) :
    tailed first (next :: parts) = first ++ ',' :: tailed next parts := by
  simp [tailed]

mutual

theorem readValue_render : ∀ (j : Json) (depth : Nat) (rest : Text), (render j).length ≤ depth →
    readValue depth (render j ++ rest) = some (j, rest)
  | j, 0, rest, h => by
    obtain ⟨c, cs, hj, -⟩ := exists_render_eq_cons j
    simp [hj] at h
  | null, depth + 1, rest, _ => by simp [render, readValue]
  | string text, depth + 1, rest, _ => by simp [render, quote_append, readValue, readString_quote]
  | array [], depth + 1, rest, _ => by simp [render, renderItems, Text.join, readValue]
  | array (item :: items), depth + 1, rest, h => by
    have hrender : render (array (item :: items)) ++ rest =
        '[' :: (tailed (render item) (renderItems items) ++ ']' :: rest) := by
      simp [render, renderItems, join_cons]
    have hlength : (tailed (render item) (renderItems items)).length < depth := by
      simp only [render, renderItems, join_cons, List.length_append, List.length_cons,
        List.length_nil] at h
      omega
    obtain ⟨c, cs, hitem, hc⟩ := exists_render_eq_cons item
    rw [hrender, readValue.eq_5 _ _ (by simp [tailed, hitem, hc]),
      readItems_tailed item items depth rest hlength]
    rfl
  | object [], depth + 1, rest, _ => by simp [render, renderFields, Text.join, readValue]
  | object ((key, item) :: fields), depth + 1, rest, h => by
    have hrender : render (object ((key, item) :: fields)) ++ rest =
        '\x7b' :: (tailed (quote key ++ ':' :: render item) (renderFields fields) ++ '\x7d' :: rest) := by
      simp [render, renderFields, join_cons]
    have hlength :
        (tailed (quote key ++ ':' :: render item) (renderFields fields)).length < depth := by
      simp only [render, renderFields, join_cons, List.length_append, List.length_cons,
        List.length_nil] at h
      simp only [tailed, List.length_append, List.length_cons] at h ⊢
      omega
    rw [hrender, readValue.eq_7 _ _ (by simp [tailed, quote]),
      readFields_tailed key item fields depth rest hlength]
    rfl

theorem readItems_tailed : ∀ (item : Json) (items : List Json) (depth : Nat) (rest : Text),
    (tailed (render item) (renderItems items)).length < depth →
      readItems depth (tailed (render item) (renderItems items) ++ ']' :: rest) =
        some (item :: items, rest)
  | item, [], depth + 1, rest, h => by
    have hlength : (render item).length ≤ depth := by
      simp only [tailed, List.length_append] at h
      omega
    simp [renderItems, tailed, readItems, readValue_render item depth _ hlength]
  | item, next :: items, depth + 1, rest, h => by
    rw [renderItems, tailed_cons] at h ⊢
    simp only [List.length_append, List.length_cons] at h
    rw [List.append_assoc, readItems, readValue_render item depth _ (by omega)]
    simp only [List.cons_append]
    rw [readItems_tailed next items depth rest (by omega)]
    rfl

theorem readFields_tailed : ∀ (key : Text) (item : Json) (fields : List (Text × Json)) (depth : Nat)
    (rest : Text), (tailed (quote key ++ ':' :: render item) (renderFields fields)).length < depth →
      readFields depth
        (tailed (quote key ++ ':' :: render item) (renderFields fields) ++ '\x7d' :: rest) =
          some ((key, item) :: fields, rest)
  | key, item, [], depth + 1, rest, h => by
    simp only [tailed, List.length_append, List.length_cons] at h
    have hvalue := readValue_render item depth ('\x7d' :: rest) (by omega)
    simp [renderFields, tailed, quote_append, readFields, readString_quote, hvalue]
  | key, item, (key', item') :: fields, depth + 1, rest, h => by
    have hothers := readFields_tailed key' item' fields depth rest
    rw [renderFields, tailed_cons] at h ⊢
    generalize tailed (quote key' ++ ':' :: render item') (renderFields fields) = others at h hothers ⊢
    simp only [List.length_append, List.length_cons] at h
    have hvalue := readValue_render item depth (',' :: (others ++ '\x7d' :: rest)) (by omega)
    simp [quote_append, readFields, readString_quote, hvalue, hothers (by omega)]

end

/-- What is printed of a document is read back as it. -/
theorem read?_line_render (j : Json) : read? (Report.line (render j)) = some j := by
  have hvalue := readValue_render j (Report.line (render j)).length ['\n'] (by simp [Report.line])
  have hprinted : render j ++ ['\n'] = Report.line (render j) := rfl
  rw [hprinted] at hvalue
  simp only [read?, hvalue]

theorem render_injective {j j' : Json} (h : render j = render j') : j = j' := by
  have hj := read?_line_render j
  rw [h, read?_line_render j'] at hj
  exact (Option.some.inj hj).symm

end Json
end TemplateSplice
