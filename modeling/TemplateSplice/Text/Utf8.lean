import TemplateSplice.Text.Basic

/-!
UTF-8. One decoder reads bytes into pieces: a character, or `none` for a longest stretch that begins
a character and cannot be continued. Strict decoding wants no such stretch, lossy decoding writes
U+FFFD for each. The decoder is an automaton over single bytes, and every byte below 0x80 brings it
back to `ground`.
-/

namespace TemplateSplice

abbrev Bytes := List UInt8

namespace Utf8

/-- Between two characters, or inside one: the bits read so far, the number of bytes still due, and
the range in which the next of them has to lie. -/
inductive State where
  | ground
  | inside (bits due : Nat) (low high : UInt8)

/-- Reads a byte that begins a character. The ranges of the second byte keep out overlong forms,
surrogates and values beyond U+10FFFF. -/
def start (b : UInt8) : List (Option Char) × State :=
  if b < 0x80 then ([some (Char.ofNat b.toNat)], .ground)
  else if b < 0xC2 then ([none], .ground)
  else if b < 0xE0 then ([], .inside (b.toNat - 0xC0) 1 0x80 0xBF)
  else if b = 0xE0 then ([], .inside 0 2 0xA0 0xBF)
  else if b = 0xED then ([], .inside 0xD 2 0x80 0x9F)
  else if b < 0xF0 then ([], .inside (b.toNat - 0xE0) 2 0x80 0xBF)
  else if b = 0xF0 then ([], .inside 0 3 0x90 0xBF)
  else if b < 0xF4 then ([], .inside (b.toNat - 0xF0) 3 0x80 0xBF)
  else if b = 0xF4 then ([], .inside 4 3 0x80 0x8F)
  else ([none], .ground)

/-- Reads one byte. A byte that does not continue the character at hand ends that stretch and
begins anew. -/
def step : State → UInt8 → List (Option Char) × State
  | .ground, b => start b
  | .inside bits due low high, b =>
    if low ≤ b ∧ b ≤ high then
      let bits := bits * 64 + (b.toNat - 0x80)
      if due ≤ 1 then ([some (Char.ofNat bits)], .ground)
      else ([], .inside bits (due - 1) 0x80 0xBF)
    else (none :: (start b).1, (start b).2)

def finish : State → List (Option Char)
  | .ground => []
  | .inside .. => [none]

def run : State → Bytes → List (Option Char)
  | s, [] => finish s
  | s, b :: rest => (step s b).1 ++ run (step s b).2 rest

def pieces (bytes : Bytes) : List (Option Char) :=
  run .ground bytes

def decode? (bytes : Bytes) : Option Text :=
  (pieces bytes).mapM id

def decodeLossy (bytes : Bytes) : Text :=
  (pieces bytes).map (·.getD '\uFFFD')

end Utf8

namespace Text

def utf8 (t : Text) : Bytes :=
  t.flatMap String.utf8EncodeChar

def byteLength (t : Text) : Nat :=
  (t.map Char.utf8Size).foldr (· + ·) 0

/-- Puts `inserted` at a byte offset, which must be the start of a character or the end. -/
def insertAtByte? (inserted : Text) : Nat → Text → Option Text
  | 0, t => some (inserted ++ t)
  | _ + 1, [] => none
  | offset + 1, c :: rest =>
    if c.utf8Size ≤ offset + 1 then
      (insertAtByte? inserted (offset + 1 - c.utf8Size) rest).map (c :: ·)
    else none

theorem byteLength_append (s t : Text) : byteLength (s ++ t) = byteLength s + byteLength t := by
  induction s with
  | nil => simp [byteLength]
  | cons c s ih => exact (congrArg (c.utf8Size + ·) ih).trans (Nat.add_assoc ..).symm

theorem insertAtByte?_byteLength (inserted s t : Text) :
    insertAtByte? inserted (byteLength s) (s ++ t) = some (s ++ inserted ++ t) := by
  induction s with
  | nil => cases t <;> rfl
  | cons c s ih =>
    have hc : 0 < c.utf8Size := Char.utf8Size_pos c
    have hl : byteLength (c :: s) = c.utf8Size + byteLength s := rfl
    obtain ⟨n, hn⟩ : ∃ n, byteLength (c :: s) = n + 1 := ⟨byteLength (c :: s) - 1, by omega⟩
    have hr : n + 1 - c.utf8Size = byteLength s := by omega
    rw [hn, List.cons_append, insertAtByte?, if_pos (by omega), hr, ih]
    rfl

end Text
end TemplateSplice
