import TemplateSplice.Text.Basic

/-!
TOML values and the tables of a document. A table remembers how it came about, because that decides
who may still add to it: a table written inline is closed, one made by a dotted key is open to
dotted keys, one that was only passed through on the way to another may still get a header.
-/

namespace TemplateSplice.Toml

inductive Origin where
  | inline
  | header
  | dotted
  | passed
  deriving DecidableEq, Repr

def Origin.takesDotted : Origin → Bool
  | dotted | passed => true
  | inline | header => false

/-- Numbers, booleans, dates and times are `scalar`: their form is checked and their value is never
asked for. -/
inductive Value where
  | string (text : Text)
  | scalar
  | array (items : List Value)
  | table (origin : Origin) (entries : List (Text × Value))
  | tables (items : List (List (Text × Value)))
  deriving Repr

abbrev Table := List (Text × Value)

namespace Table

def replace (t : Table) (key : Text) (v : Value) : Table :=
  t.map fun entry => if entry.1 = key then (key, v) else entry

def define (v : Value) : List Text → Table → Option Table
  | [], _ => none
  | [key], t => if (t.lookup key).isSome then none else some (t ++ [(key, v)])
  | key :: path, t =>
    match t.lookup key with
    | none => (define v path []).map fun sub => t ++ [(key, .table .dotted sub)]
    | some (.table origin sub) =>
      if origin.takesDotted then
        (define v path sub).map fun sub => t.replace key (.table origin sub)
      else none
    | some _ => none

/-- Changes the table that a header's path leads to. Of an array of tables the last is meant. -/
def within (change : Table → Option Table) : List Text → Table → Option Table
  | [], t => change t
  | key :: path, t =>
    match t.lookup key with
    | none => (within change path []).map fun sub => t ++ [(key, .table .passed sub)]
    | some (.table .inline _) => none
    | some (.table origin sub) =>
      (within change path sub).map fun sub => t.replace key (.table origin sub)
    | some (.tables items) =>
      (within change path (items.getLast?.getD [])).map fun sub =>
        t.replace key (.tables (items.dropLast ++ [sub]))
    | some _ => none

def openTable (key : Text) (t : Table) : Option Table :=
  match t.lookup key with
  | none => some (t ++ [(key, .table .header [])])
  | some (.table .passed sub) => some (t.replace key (.table .header sub))
  | some _ => none

def openItem (key : Text) (t : Table) : Option Table :=
  match t.lookup key with
  | none => some (t ++ [(key, .tables [[]])])
  | some (.tables items) => some (t.replace key (.tables (items ++ [[]])))
  | some _ => none

end Table
end TemplateSplice.Toml
