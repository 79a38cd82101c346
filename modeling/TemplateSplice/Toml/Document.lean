import TemplateSplice.Toml.Quoted
import TemplateSplice.Toml.Value

/-!
TOML documents, version 1.1: a text is read line by line, a line being a header, a definition (whose
value may span many lines) or blank, and the lines build up one table.
-/

namespace TemplateSplice.Toml

/-- How deeply arrays and inline tables may nest, and how many keys dots may join. -/
def maxDepth : Nat := 80

def isBare (c : Char) : Bool :=
  c.isAlphanum || c = '-' || c = '_'

def key? : (s : Text) → Option (Taken Text s)
  | '"' :: rest => (basicLine? rest).map (.behind _)
  | '\'' :: rest => (literalLine? rest).map (.behind _)
  | s =>
    let word := s.takeWhile isBare
    if h : word = [] then none
    else some ⟨word, s.drop word.length, by
      have hw : word.length ≤ s.length := (List.takeWhile_prefix _).length_le
      have : 0 < word.length := List.length_pos_iff.mpr h
      simp only [List.length_drop]
      omega⟩

def keyPath? (s : Text) : Option (Taken (List Text) s) :=
  have hs : (skipSpace s).length ≤ s.length := length_dropWhile_le _ s
  (key? (skipSpace s)).bind fun key =>
    have hk : (skipSpace key.rest).length ≤ key.rest.length := length_dropWhile_le _ key.rest
    have := key.shorter
    match hr : skipSpace key.rest with
    | '.' :: rest =>
      have hrest : rest.length < s.length := by rw [hr] at hk; simp at hk; omega
      (keyPath? rest).map fun path => (path.map (key.value :: ·)).within hrest
    | rest => some ⟨[key.value], rest, by rw [← hr]; omega⟩
termination_by s.length
decreasing_by exact hrest

def path? (s : Text) : Option (Taken (List Text) s) :=
  (keyPath? s).filter (·.value.length ≤ maxDepth)

def scalar? (s : Text) : Option (Taken Value s) :=
  let word := Scalar.front s
  if h : Scalar.accepts word ∧ (s.drop word.length).length < s.length then
    some ⟨.scalar, s.drop word.length, h.2⟩
  else none

/-- Elements with commas between them, and perhaps one behind the last, up to `close`. -/
def separated? {α : Type} (element? : (s : Text) → Option (Taken α s)) (close : Char) (s : Text) :
    Option (Taken (List α) s) :=
  have hs := length_skipGap_le s
  match hg : skipGap s with
  | [] => none
  | c :: rest =>
    have hc : rest.length < s.length := by rw [hg] at hs; exact hs
    if c = close then some ⟨[], rest, hc⟩
    else
      (element? (c :: rest)).bind fun element =>
        have he := element.shorter
        have hr := length_skipGap_le element.rest
        match hd : skipGap element.rest with
        | [] => none
        | d :: rest =>
          have hl : rest.length < s.length := by
            rw [hd] at hr
            exact Nat.lt_trans (Nat.lt_of_lt_of_le hr (Nat.le_of_lt_succ he)) hc
          if d = close then some ⟨[element.value], rest, hl⟩
          else if d = ',' then
            (separated? element? close rest).map fun tail =>
              (tail.map (element.value :: ·)).within hl
          else none
termination_by s.length
decreasing_by exact hl

def definition? (skip : Text → Text) (skip_le : ∀ s, (skip s).length ≤ s.length)
    (value? : (s : Text) → Option (Taken Value s)) (s : Text) :
    Option (Taken (List Text × Value) s) :=
  match path? s with
  | none => none
  | some path =>
    match hr : skip path.rest with
    | '=' :: rest =>
      (value? (skip rest)).map fun v =>
        ⟨(path.value, v.value), v.rest, by
          have := v.shorter
          have := skip_le rest
          have hp := skip_le path.rest
          have := path.shorter
          rw [hr, List.length_cons] at hp
          omega⟩
    | _ => none

/-- In an inline table a definition may go on over many lines. -/
def inlineDefinition? (value? : (s : Text) → Option (Taken Value s)) :
    (s : Text) → Option (Taken (List Text × Value) s) :=
  definition? skipGap length_skipGap_le value?

def Table.ofDefinitions? (definitions : List (List Text × Value)) : Option Table :=
  definitions.foldlM (fun t definition => t.define definition.2 definition.1) []

def value? : (depth : Nat) → (s : Text) → Option (Taken Value s)
  | depth + 1, '[' :: rest =>
    (separated? (value? depth) ']' rest).map fun items => (items.map .array).widen (Nat.le_succ _)
  | depth + 1, '{' :: rest =>
    match separated? (inlineDefinition? (value? depth)) '}' rest with
    | none => none
    | some definitions =>
      (Table.ofDefinitions? definitions.value).map fun t =>
        (definitions.map fun _ => .table .inline t).widen (Nat.le_succ _)
  | _, s =>
    match string? s with
    | some text => some (text.map .string)
    | none => scalar? s

inductive Line where
  | blank
  | header (path : List Text)
  | itemHeader (path : List Text)
  | definition (path : List Text) (v : Value)

def content? : (s : Text) → Option (Taken Line s)
  | '[' :: '[' :: rest =>
    match path? rest with
    | none => none
    | some path =>
      match hr : path.rest with
      | ']' :: ']' :: rest => some ⟨.itemHeader path.value, rest, by
          have := path.shorter
          simp only [hr, List.length_cons] at *
          omega⟩
      | _ => none
  | '[' :: rest =>
    match path? rest with
    | none => none
    | some path =>
      match hr : path.rest with
      | ']' :: rest => some ⟨.header path.value, rest, by
          have := path.shorter
          simp only [hr, List.length_cons] at *
          omega⟩
      | _ => none
  | s =>
    (definition? skipSpace (length_dropWhile_le _) (value? maxDepth) s).map
      (·.map fun d => .definition d.1 d.2)

def line? (s : Text) : Option (Taken Line s) :=
  have hs : (skipSpace s).length ≤ s.length := length_dropWhile_le _ s
  have hb := Nat.le_trans (length_skipComment_le (skipSpace s)) hs
  match lineEnd? (skipComment (skipSpace s)) with
  | some newline => some ((newline.map fun _ => .blank).widen hb)
  | none =>
    if skipComment (skipSpace s) = [] then
      if hn : 0 < s.length then some ⟨.blank, [], hn⟩ else none
    else
      match content? (skipSpace s) with
      | none => none
      | some content =>
        match restOfLine? content.rest with
        | none => none
        | some rest =>
          if hl : rest.length < s.length then some ⟨content.value, rest, hl⟩ else none

def lines? (s : Text) : Option (List Line) :=
  if s = [] then some []
  else
    match line? s with
    | none => none
    | some line => (lines? line.rest).map (line.value :: ·)
termination_by s.length
decreasing_by exact line.shorter

structure Document where
  root : Table := []
  header : List Text := []

def Document.add (d : Document) : Line → Option Document
  | .blank => some d
  | .definition path v => (d.root.within (·.define v path) d.header).map ({ d with root := · })
  | .header path =>
    (d.root.within (·.openTable (path.getLast?.getD [])) path.dropLast).map (⟨·, path⟩)
  | .itemHeader path =>
    (d.root.within (·.openItem (path.getLast?.getD [])) path.dropLast).map (⟨·, path⟩)

def skipByteOrderMark : Text → Text
  | '\uFEFF' :: rest => rest
  | s => s

def read? (s : Text) : Option Table := do
  let lines ← lines? (skipByteOrderMark s)
  let document ← lines.foldlM Document.add {}
  return document.root

end TemplateSplice.Toml
