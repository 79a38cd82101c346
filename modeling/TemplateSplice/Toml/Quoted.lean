import TemplateSplice.Toml.Scalar
import TemplateSplice.Toml.Taken

/-!
Quoted strings: basic ones with escapes and literal ones without, each on one line or on many.
-/

namespace TemplateSplice.Toml

def hexValue (c : Char) : Nat :=
  if c.isDigit then c.toNat - '0'.toNat else (c.toNat ||| 0x20) - 'a'.toNat + 10

/-- The character with the given number, surrogates and numbers above U+10FFFF excepted. -/
def character? (n : Nat) : Option Char :=
  if n.isValidChar then some (Char.ofNat n) else none

def hexEscape? (width : Nat) (s : Text) (h : 0 < width) : Option (Taken Char s) :=
  let digits := s.take width
  if hd : digits.length = width ∧ digits.all Scalar.isHexDigit then
    (character? (digits.foldl (fun n c => n * 16 + hexValue c) 0)).map fun c =>
      ⟨c, s.drop width, by
        have := hd.1
        simp only [digits, List.length_take] at this
        simp only [List.length_drop]
        omega⟩
  else none

def escape? : (s : Text) → Option (Taken Char s)
  | 'b' :: rest => some (.first '\x08' _ rest)
  | 't' :: rest => some (.first '\t' _ rest)
  | 'n' :: rest => some (.first '\n' _ rest)
  | 'f' :: rest => some (.first '\x0c' _ rest)
  | 'r' :: rest => some (.first '\r' _ rest)
  | 'e' :: rest => some (.first '\x1b' _ rest)
  | '"' :: rest => some (.first '"' _ rest)
  | '\\' :: rest => some (.first '\\' _ rest)
  | 'x' :: rest => (hexEscape? 2 rest (by decide)).map (.behind _)
  | 'u' :: rest => (hexEscape? 4 rest (by decide)).map (.behind _)
  | 'U' :: rest => (hexEscape? 8 rest (by decide)).map (.behind _)
  | _ => none

def basicLine? : (s : Text) → Option (Taken Text s)
  | [] => none
  | c :: rest =>
    if c = '"' then some ⟨[], rest, by simp⟩
    else if c = '\\' then
      match escape? rest with
      | none => none
      | some e =>
        have := e.shorter
        (basicLine? e.rest).map (·.prepend [e.value] (Nat.le_succ_of_le (Nat.le_of_lt e.shorter)))
    else if isPrintable c then
      (basicLine? rest).map (·.prepend [c] (Nat.le_succ _))
    else none
termination_by s => s.length

def literalLine? : (s : Text) → Option (Taken Text s)
  | [] => none
  | c :: rest =>
    if c = '\'' then some ⟨[], rest, by simp⟩
    else if isPrintable c then
      (literalLine? rest).map (·.prepend [c] (Nat.le_succ _))
    else none

/-- The quotes that close a string of many lines: three, of a run of at most five. What the run has
beyond three belongs to the string. -/
def closing? (quote : Char) (s : Text) : Option (Taken Text s) :=
  let run := s.takeWhile (· = quote)
  if h : 3 ≤ run.length then
    let extra := min (run.length - 3) 2
    some ⟨List.replicate extra quote, s.drop (3 + extra), by
      have : run.length ≤ s.length := (List.takeWhile_prefix _).length_le
      simp only [List.length_drop]
      omega⟩
  else none

def skipBlankLines (s : Text) : Text :=
  match lineEnd? (skipSpace s) with
  | some taken => skipBlankLines taken.rest
  | none => skipSpace s
termination_by s.length
decreasing_by exact Nat.lt_of_lt_of_le taken.shorter (length_dropWhile_le _ s)

theorem length_skipBlankLines_le (s : Text) : (skipBlankLines s).length ≤ s.length := by
  fun_induction skipBlankLines s with
  | case1 s taken _ ih =>
    exact Nat.le_trans ih
      (Nat.le_trans (Nat.le_of_lt taken.shorter) (length_dropWhile_le _ s))
  | case2 s _ => exact length_dropWhile_le _ s

def continuation? (s : Text) : Option (Taken Unit s) :=
  match lineEnd? (skipSpace s) with
  | none => none
  | some taken =>
    some ⟨(), skipBlankLines taken.rest, Nat.lt_of_le_of_lt (length_skipBlankLines_le taken.rest)
      (Nat.lt_of_lt_of_le taken.shorter (length_dropWhile_le _ s))⟩

/-- A string of many lines, read from behind its opening quotes and the line ending that may follow
them. -/
def manyLines? (quote : Char) (s : Text) : Option (Taken Text s) :=
  match closing? quote s with
  | some close => some close
  | none =>
    match lineEnd? s with
    | some newline =>
      have := newline.shorter
      (manyLines? quote newline.rest).map (·.prepend newline.value (Nat.le_of_lt newline.shorter))
    | none =>
      match s with
      | [] => none
      | c :: rest =>
        if c = '\\' ∧ quote = '"' then
          match continuation? rest with
          | some gap =>
            have := gap.shorter
            (manyLines? quote gap.rest).map
              (·.widen (Nat.le_succ_of_le (Nat.le_of_lt gap.shorter)))
          | none =>
            match escape? rest with
            | none => none
            | some e =>
              have := e.shorter
              (manyLines? quote e.rest).map
                (·.prepend [e.value] (Nat.le_succ_of_le (Nat.le_of_lt e.shorter)))
        else if isPrintable c then
          (manyLines? quote rest).map (·.prepend [c] (Nat.le_succ _))
        else none
termination_by s.length
decreasing_by all_goals simp_all <;> omega

def openedLines? (quote : Char) (s : Text) : Option (Taken Text s) :=
  match lineEnd? s with
  | some newline => (manyLines? quote newline.rest).map (·.widen (Nat.le_of_lt newline.shorter))
  | none => manyLines? quote s

def string? : (s : Text) → Option (Taken Text s)
  | '"' :: '"' :: '"' :: rest => (openedLines? '"' rest).map (·.widen (Nat.le_add_right _ 3))
  | '\'' :: '\'' :: '\'' :: rest =>
    (openedLines? '\'' rest).map (·.widen (Nat.le_add_right _ 3))
  | '"' :: rest => (basicLine? rest).map (·.widen (Nat.le_succ _))
  | '\'' :: rest => (literalLine? rest).map (·.widen (Nat.le_succ _))
  | _ => none

end TemplateSplice.Toml
