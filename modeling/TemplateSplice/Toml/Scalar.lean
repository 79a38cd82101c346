import TemplateSplice.Toml.Taken

/-!
The forms of unquoted values: booleans, integers, floats, dates and times. A value is recognised by
its form and never computed, so an integer may be of any size, and one with underscores is checked
only at its front and beside the underscores.
-/

namespace TemplateSplice.Toml.Scalar

def isHexDigit (c : Char) : Bool :=
  c.isDigit || ('a' ≤ c && c ≤ 'f') || ('A' ≤ c && c ≤ 'F')

def isOctalDigit (c : Char) : Bool :=
  '0' ≤ c && c ≤ '7'

def isBinaryDigit (c : Char) : Bool :=
  c = '0' || c = '1'

def isSign (c : Char) : Bool :=
  c = '+' || c = '-'

def isExponentMark (c : Char) : Bool :=
  c = 'e' || c = 'E'

def unsigned : Text → Text
  | [] => []
  | c :: rest => if isSign c then rest else c :: rest

def isGrouped (digit : Char → Bool) : Text → Bool
  | [] => true
  | c :: '_' :: rest => digit c && rest.head?.any digit && isGrouped digit rest
  | c :: rest => c ≠ '_' && isGrouped digit rest

/-- The digits behind a radix mark. There may be none. -/
def isRadixed (digit : Char → Bool) (t : Text) : Bool :=
  t.all (fun c => digit c || c = '_') && isGrouped digit t

/-- A whole number without a radix mark. Behind the first underscore it may hold anything but a
blank and the marks of a float. -/
def isDecimalInteger (t : Text) : Bool :=
  let number := unsigned t
  match number.dropWhile Char.isDigit with
  | [] => number = ['0'] || (number ≠ [] && number.head? ≠ some '0')
  | '_' :: rest =>
    number.head? ≠ some '0' && rest.all (fun c => c ≠ ' ' && c ≠ '.' && !isExponentMark c) &&
      isGrouped isHexDigit t
  | _ => false

def isInteger : Text → Bool
  | '0' :: 'x' :: rest => isRadixed isHexDigit rest
  | '0' :: 'o' :: rest => isRadixed isOctalDigit rest
  | '0' :: 'b' :: rest => isRadixed isBinaryDigit rest
  | t => isDecimalInteger t

def isDigits (t : Text) : Bool :=
  t.any Char.isDigit && t.all fun c => c.isDigit || c = '_'

def isWhole (t : Text) : Bool :=
  isDigits t && (t = ['0'] || t.head? ≠ some '0')

def isFloat (t : Text) : Bool :=
  let number := unsigned t
  if number = "inf".toList ∨ number = "nan".toList then true
  else
    let mantissa := number.takeWhile (!isExponentMark ·)
    let isMantissa :=
      match Text.split '.' mantissa with
      | [whole] => isWhole whole && mantissa ≠ number
      | [whole, fraction] => isWhole whole && isDigits fraction
      | _ => false
    let isExponent :=
      match number.dropWhile (!isExponentMark ·) with
      | [] => true
      | _ :: exponent => isDigits (unsigned exponent)
    isMantissa && isExponent && isGrouped Char.isDigit t

def fixed? (width : Nat) (t : Text) : Option Nat :=
  if t.length = width ∧ t.all Char.isDigit then
    some (t.foldl (fun n c => n * 10 + (c.toNat - '0'.toNat)) 0)
  else none

def daysIn (year month : Nat) : Nat :=
  if month = 2 then
    if year % 4 = 0 ∧ (year % 100 ≠ 0 ∨ year % 400 = 0) then 29 else 28
  else if month = 4 ∨ month = 6 ∨ month = 9 ∨ month = 11 then 30
  else 31

def isDate (t : Text) : Bool :=
  match t.split '-' with
  | [y, m, d] =>
    match fixed? 4 y, fixed? 2 m, fixed? 2 d with
    | some year, some month, some day =>
      decide (1 ≤ month ∧ month ≤ 12 ∧ 1 ≤ day ∧ day ≤ daysIn year month)
    | _, _, _ => false
  | _ => false

def isBelow (limit : Nat) (t : Text) : Bool :=
  match fixed? 2 t with
  | some n => n < limit
  | none => false

/-- Seconds, which may be those of a leap second, and may have a fraction. -/
def isSeconds (t : Text) : Bool :=
  match t.split '.' with
  | [whole] => isBelow 61 whole
  | [whole, fraction] => isBelow 61 whole && fraction ≠ [] && fraction.all Char.isDigit
  | _ => false

def isTime (t : Text) : Bool :=
  match t.split ':' with
  | [h, m] => isBelow 24 h && isBelow 60 m
  | [h, m, s] => isBelow 24 h && isBelow 60 m && isSeconds s
  | _ => false

def isOffsetMark (c : Char) : Bool :=
  isSign c || c = 'Z' || c = 'z'

def isOffset : Text → Bool
  | [c] => c = 'Z' || c = 'z'
  | c :: rest =>
    isSign c &&
      match Text.split ':' rest with
      | [h, m] => isBelow 24 h && isBelow 60 m
      | _ => false
  | [] => true

def isDateMark (c : Char) : Bool :=
  c = 'T' || c = 't' || c = ' '

def isDateTime (t : Text) : Bool :=
  match t.dropWhile (!isDateMark ·) with
  | [] => isDate t || isTime t
  | _ :: rest =>
    isDate (t.takeWhile (!isDateMark ·)) && isTime (rest.takeWhile (!isOffsetMark ·)) &&
      isOffset (rest.dropWhile (!isOffsetMark ·))

def accepts (t : Text) : Bool :=
  t = "true".toList || t = "false".toList || isInteger t || isFloat t || isDateTime t

def isDelimiter (c : Char) : Bool :=
  [',', '=', '[', ']', '{', '}', '#', '\r', '\n'].contains c

def opensWord (c : Char) : Bool :=
  !(isDelimiter c || c = '"' || c = '\'')

/-- The characters of an unquoted value at the front of a text: words with spaces between them,
where no word behind a space opens with a quote. -/
def front : Text → Text
  | [] => []
  | c :: rest =>
    if isDelimiter c then []
    else if isSpace c && !(skipSpace rest).head?.any opensWord then []
    else c :: front rest

end TemplateSplice.Toml.Scalar
