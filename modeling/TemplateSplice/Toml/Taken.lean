import TemplateSplice.Text.Basic

/-!
What a reader takes from the front of a text: a value, and a rest that is shorter than the text.
-/

namespace TemplateSplice.Toml

structure Taken (α : Type) (s : Text) where
  value : α
  rest : Text
  shorter : rest.length < s.length

namespace Taken

def map {α β : Type} {s : Text} (f : α → β) (t : Taken α s) : Taken β s :=
  ⟨f t.value, t.rest, t.shorter⟩

/-- What is taken from a later part of a text is taken from the text. -/
def widen {α : Type} {s t : Text} (h : s.length ≤ t.length) (a : Taken α s) : Taken α t :=
  ⟨a.value, a.rest, Nat.lt_of_lt_of_le a.shorter h⟩

def within {α : Type} {s t : Text} (h : s.length < t.length) (a : Taken α s) : Taken α t :=
  a.widen (Nat.le_of_lt h)

def first {α : Type} (value : α) (c : Char) (rest : Text) : Taken α (c :: rest) :=
  ⟨value, rest, by simp⟩

def behind {α : Type} (c : Char) {rest : Text} (a : Taken α rest) : Taken α (c :: rest) :=
  a.widen (Nat.le_succ _)

def prepend {s t : Text} (front : Text) (h : s.length ≤ t.length) (a : Taken Text s) :
    Taken Text t :=
  (a.map (front ++ ·)).widen h

end Taken

theorem length_dropWhile_le (p : Char → Bool) (s : Text) : (s.dropWhile p).length ≤ s.length :=
  (List.dropWhile_suffix p).length_le

def isPrintable (c : Char) : Bool :=
  c = '\t' || (' ' ≤ c && c ≠ '\x7f')

def isSpace (c : Char) : Bool :=
  c = ' ' || c = '\t'

def skipSpace (s : Text) : Text :=
  s.dropWhile isSpace

def lineEnd? : (s : Text) → Option (Taken Text s)
  | '\n' :: rest => some ⟨['\n'], rest, by simp⟩
  | '\r' :: '\n' :: rest => some ⟨['\r', '\n'], rest, by simp only [List.length_cons]; omega⟩
  | _ => none

def skipComment : Text → Text
  | '#' :: rest => rest.dropWhile isPrintable
  | s => s

theorem length_skipComment_le (s : Text) : (skipComment s).length ≤ s.length := by
  unfold skipComment
  split
  · next rest => exact Nat.le_succ_of_le (length_dropWhile_le _ rest)
  · exact Nat.le_refl _

/-- What may stand between the parts of an array: spaces, comments and line endings. -/
def skipGap (s : Text) : Text :=
  match lineEnd? (skipComment (skipSpace s)) with
  | some taken => skipGap taken.rest
  | none => skipComment (skipSpace s)
termination_by s.length
decreasing_by
  exact Nat.lt_of_lt_of_le taken.shorter
    (Nat.le_trans (length_skipComment_le _) (length_dropWhile_le _ s))

theorem length_skipGap_le (s : Text) : (skipGap s).length ≤ s.length := by
  have hs (s : Text) : (skipComment (skipSpace s)).length ≤ s.length :=
    Nat.le_trans (length_skipComment_le _) (length_dropWhile_le _ s)
  fun_induction skipGap s with
  | case1 s taken _ ih => exact Nat.le_trans ih (Nat.le_trans (Nat.le_of_lt taken.shorter) (hs s))
  | case2 s _ => exact hs s

/-- The end of a line that holds nothing more but perhaps a comment: what follows it, and `none` if
the line goes on. At the end of the text the line ends too. -/
def restOfLine? (s : Text) : Option Text :=
  match skipComment (skipSpace s) with
  | [] => some []
  | c :: rest => (lineEnd? (c :: rest)).map (·.rest)

end TemplateSplice.Toml
