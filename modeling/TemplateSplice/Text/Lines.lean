import TemplateSplice.Text.Basic

/-!
Lines of a text file. A line ends at a line feed, and one carriage return just before it belongs to
the ending. What stands after the last line feed is a line of its own unless it is empty, and keeps
its carriage return.
-/

namespace TemplateSplice.Text

def chompReturn (t : Text) : Text :=
  if t.getLast? = some '\r' then t.dropLast else t

def lines (t : Text) : List Text :=
  let parts := split '\n' t
  let closed := parts.dropLast.map chompReturn
  match parts.getLast? with
  | some (c :: rest) => closed ++ [c :: rest]
  | _ => closed

def endsInNewline (t : Text) : Bool :=
  t.getLast? = some '\n'

/-- Writes lines one under the other; `closed` says whether the last one is ended too. -/
def ofLines (lines : List Text) (closed : Bool) : Text :=
  join ['\n'] lines ++ if closed then ['\n'] else []

end TemplateSplice.Text
