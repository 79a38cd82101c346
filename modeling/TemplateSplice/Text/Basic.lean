/-!
Text is a list of characters, so that every rule about it is a recursion on the data. Blank is
Unicode's `White_Space` and nothing wider: the separators U+001C to U+001F, the zero width space and
the byte order mark are ordinary characters.
-/

namespace TemplateSplice

abbrev Text := List Char

namespace Text

def blankRanges : List (Nat × Nat) :=
  [(0x09, 0x0D), (0x20, 0x20), (0x85, 0x85), (0xA0, 0xA0), (0x1680, 0x1680), (0x2000, 0x200A),
   (0x2028, 0x2029), (0x202F, 0x202F), (0x205F, 0x205F), (0x3000, 0x3000)]

def isBlank (c : Char) : Bool :=
  blankRanges.any fun range => range.1 ≤ c.toNat && c.toNat ≤ range.2

def trimStart (t : Text) : Text :=
  t.dropWhile isBlank

def trimEnd (t : Text) : Text :=
  (t.reverse.dropWhile isBlank).reverse

def trim (t : Text) : Text :=
  trimEnd (trimStart t)

/-- Cuts at every `separator`: a text that holds n of them has n + 1 parts. -/
def split (separator : Char) : Text → List Text
  | [] => [[]]
  | c :: rest =>
    if c = separator then [] :: split separator rest
    else (split separator rest).modifyHead (c :: ·)

def join (separator : Text) (parts : List Text) : Text :=
  separator.intercalate parts

def ofNat (n : Nat) : Text :=
  Nat.toDigits 10 n

theorem split_ne_nil (separator : Char) (t : Text) : split separator t ≠ [] := by
  cases t with
  | nil => simp [split]
  | cons c rest =>
    by_cases h : c = separator
    · simp [split, h]
    · cases hs : split separator rest with
      | nil => exact absurd hs (split_ne_nil separator rest)
      | cons part parts => simp [split, h, hs]

end Text
end TemplateSplice
