import TemplateSplice.Text.Lines

/-!
Payloads of an extension file. A line carries a tag when, once trimmed, it begins with the comment
mark and, after blanks, with the tag's token; what follows the token is the payload and has to be
set off by a blank, so that a token never claims the lines of a longer one.
-/

namespace TemplateSplice.Payload

/-- What a line carries for a token: `none` if it is not tagged with it, the empty text if it is
tagged and brings nothing. -/
def claim? (token comment line : Text) : Option Text :=
  match comment.isPrefixOf? (Text.trim line) with
  | none => none
  | some body =>
    match token.isPrefixOf? (Text.trimStart body) with
    | none => none
    | some [] => some []
    | some (c :: rest) => if Text.isBlank c then some (Text.trimStart (c :: rest)) else none

def ofLine? (token comment line : Text) : Option Text :=
  (claim? token comment line).filter (· ≠ [])

/-- The payloads of a text for one token, in line order. -/
def extract (token comment content : Text) : List Text :=
  content.lines.filterMap (ofLine? token comment)

end TemplateSplice.Payload
