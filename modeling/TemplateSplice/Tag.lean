import TemplateSplice.Text.Basic

/-!
The tags that an extension file may carry. Their order here is the order in which the contributions
of one file are spliced, and also the order of their names.
-/

namespace TemplateSplice

inductive Tag where
  | buildDependency
  | definition
  | moduleImport
  | keyBinding
  | keyBindingList
  | layout
  | mouseBinding
  deriving DecidableEq, Repr

namespace Tag

def all : List Tag :=
  [buildDependency, definition, moduleImport, keyBinding, keyBindingList, layout, mouseBinding]

theorem mem_all (t : Tag) : t ∈ all := by
  cases t <;> decide

def name : Tag → Text
  | buildDependency => "cabalbuilddep".toList
  | definition => "def".toList
  | moduleImport => "import".toList
  | keyBinding => "keybind".toList
  | keyBindingList => "keybindlist".toList
  | layout => "layout".toList
  | mouseBinding => "mousebind".toList

def token (t : Tag) : Text :=
  '%' :: t.name

/-- The tag of a name that may carry one sigil. -/
def ofName? (name : Text) : Option Tag :=
  let bare := match name with
    | '%' :: rest => rest
    | _ => name
  all.find? (·.name = bare)

theorem ofName?_name (t : Tag) : ofName? t.name = some t := by
  cases t <;> decide

theorem ofName?_token (t : Tag) : ofName? t.token = some t := by
  cases t <;> decide

theorem name_injective {s t : Tag} (h : s.name = t.name) : s = t :=
  Option.some.inj ((ofName?_name s).symm.trans (h ▸ ofName?_name t))

end Tag
end TemplateSplice
