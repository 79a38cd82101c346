import TemplateSplice.Text.Basic

/-!
Paths are kept and shown as they were written. What they mean is a list of components: `.` in the
middle, doubled slashes and a slash at the end add none.
-/

namespace TemplateSplice

abbrev Path := Text

namespace Path

inductive Component where
  | root
  | current
  | parent
  | name (text : Text)
  deriving DecidableEq, Repr

def isAbsolute (p : Path) : Bool :=
  p.head? = some '/'

/-- The path of `name` seen from `dir`. An absolute name replaces the directory. -/
def join (dir name : Path) : Path :=
  if isAbsolute name then name
  else if dir = [] ∨ dir.getLast? = some '/' then dir ++ name
  else dir ++ '/' :: name

def Component.ofPart (part : Text) : Component :=
  if part = [] ∨ part = ['.'] then .current
  else if part = ['.', '.'] then .parent
  else .name part

/-- One component for each part between slashes, the silent ones included. -/
def steps (p : Path) : List Component :=
  match Text.split '/' p with
  | [] => []
  | first :: rest =>
    (if isAbsolute p then .root else Component.ofPart first) :: rest.map Component.ofPart

def components (p : Path) : List Component :=
  if p = [] then []
  else
    match steps p with
    | [] => []
    | first :: rest => first :: rest.filter (· ≠ .current)

/-- The path at each component but the root, the last one first. The parts between slashes are given
in reverse. -/
def trail : List (Component × Text) → List Path
  | [] => []
  | (c, part) :: outer =>
    if c = .root ∨ (c = .current ∧ outer ≠ []) then trail outer
    else Text.join ['/'] ((part :: outer.map (·.2)).reverse) :: trail outer

/-- The directories on the way to `p`, the innermost first, each as it is written in `p`. -/
def ancestors (p : Path) : List Path :=
  (trail ((steps p).zip (Text.split '/' p)).reverse).tail

def fileName? (p : Path) : Option Text :=
  match (components p).getLast? with
  | some (.name text) => some text
  | _ => none

/-- Cuts a file name at its last dot. A dot that only begins the name does not count. -/
def splitName (name : Text) : Text × Option Text :=
  match name.reverse.dropWhile (· ≠ '.') with
  | '.' :: c :: rest =>
    ((c :: rest).reverse, some (name.reverse.takeWhile (· ≠ '.')).reverse)
  | _ => (name, none)

/-- The file name without its extension; empty if the path names no file. -/
def stem (p : Path) : Text :=
  match fileName? p with
  | some name => (splitName name).1
  | none => []

def dropComponents : List Component → List (Component × Text) → Option (List (Component × Text))
  | [], parts => some parts
  | _ :: _, [] => none
  | c :: base, (d, _) :: parts =>
    if c = d then dropComponents base (parts.dropWhile (·.1 = .current)) else none

/-- How `p` is shown below `base`: the rest of it if its first components are those of `base`, else
the whole path. -/
def relativeTo (p base : Path) : Path :=
  match dropComponents (components base) ((steps p).zip (Text.split '/' p)) with
  | none => p
  | some parts =>
    Text.join ['/'] ((parts.reverse.dropWhile (·.1 = .current)).reverse.map (·.2))

end Path
end TemplateSplice
