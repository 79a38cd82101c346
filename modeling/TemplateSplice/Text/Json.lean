import TemplateSplice.Text.Basic

/-!
JSON documents on one line, without spaces.
-/

namespace TemplateSplice

inductive Json where
  | null
  | string (text : Text)
  | array (items : List Json)
  | object (fields : List (Text × Json))

namespace Json

/-- A control character is written by its short escape if it has one, else by its number. -/
def escape (c : Char) : Text :=
  if c = '"' then ['\\', '"']
  else if c = '\\' then ['\\', '\\']
  else if c = '\n' then ['\\', 'n']
  else if c = '\r' then ['\\', 'r']
  else if c = '\t' then ['\\', 't']
  else if c = '\x08' then ['\\', 'b']
  else if c = '\x0c' then ['\\', 'f']
  else if c < ' ' then
    "\\u00".toList ++ (if c.toNat < 16 then ['0'] else []) ++ Nat.toDigits 16 c.toNat
  else [c]

def quote (t : Text) : Text :=
  '"' :: t.flatMap escape ++ ['"']

mutual

def render : Json → Text
  | null => "null".toList
  | string text => quote text
  | array items => '[' :: Text.join [','] (renderItems items) ++ [']']
  | object fields => '\x7b' :: Text.join [','] (renderFields fields) ++ ['\x7d']

def renderItems : List Json → List Text
  | [] => []
  | item :: rest => render item :: renderItems rest

def renderFields : List (Text × Json) → List Text
  | [] => []
  | (key, item) :: rest => (quote key ++ ':' :: render item) :: renderFields rest

end

end Json
end TemplateSplice
