import TemplateSplice.Fault

/-!
The catalog says for each tag how its payloads are inserted. Where they go is fixed by the tag;
the wording (the marker they go to, the indentation and what is written before them) can be
overridden.
-/

namespace TemplateSplice

inductive Target where
  | manifest
  | config
  deriving DecidableEq, Repr

/-- `afterMarker` puts a new line below the first line that is the marker, `fieldAppend` adds to the
end of the first line that begins with it. -/
inductive Placement where
  | afterMarker
  | fieldAppend
  deriving DecidableEq, Repr

inductive Mode where
  | active
  | passive
  deriving DecidableEq, Repr

namespace Tag

def target : Tag → Target
  | buildDependency => .manifest
  | _ => .config

def placement : Tag → Placement
  | buildDependency => .fieldAppend
  | _ => .afterMarker

end Tag

/-- The part of a rule that can be overridden. -/
structure Wording where
  marker : Text
  indent : Text
  passivePrefix : Text
  activePrefix : Text
  deriving DecidableEq, Repr

structure Rule extends Wording where
  tag : Tag
  target : Target
  placement : Placement
  deriving DecidableEq, Repr

namespace Rule

/-- What stands before a payload. A dependency that is commented out would break its field, so it is
always active. -/
def lead (r : Rule) (mode : Mode) : Text :=
  if r.tag = .buildDependency then r.activePrefix
  else match mode with
    | .active => r.activePrefix
    | .passive => r.passivePrefix

def render (r : Rule) (mode : Mode) (payload : Text) : Text :=
  r.indent ++ r.lead mode ++ payload

def hasHeading (r : Rule) : Bool :=
  r.placement = .afterMarker

def heading (r : Rule) (comment extension : Text) : Text :=
  r.indent ++ comment ++ "   For extension ".toList ++ extension ++ [':']

end Rule

structure Override where
  marker : Option Text := none
  indent : Option Text := none
  passivePrefix : Option Text := none
  activePrefix : Option Text := none
  deriving DecidableEq, Repr

def Override.apply (o : Override) (w : Wording) : Wording where
  marker := o.marker.getD w.marker
  indent := o.indent.getD w.indent
  passivePrefix := o.passivePrefix.getD w.passivePrefix
  activePrefix := o.activePrefix.getD w.activePrefix

structure Catalog where
  wording : Tag → Wording

namespace Catalog

def builtinWording : Tag → Wording
  | .buildDependency => ⟨"build-depends:".toList, [], ", ".toList, ", ".toList⟩
  | .definition => ⟨"-- % Extension-provided definitions".toList, [], "-- ".toList, []⟩
  | .moduleImport =>
    ⟨"-- % Extension-provided imports".toList, [], "-- import ".toList, "import ".toList⟩
  | .keyBinding =>
    ⟨"-- % Extension-provided key bindings".toList, "    ".toList, "-- ".toList, []⟩
  | .keyBindingList =>
    ⟨"-- % Extension-provided key bindings lists".toList, "    ".toList, "-- ".toList, []⟩
  | .layout => ⟨"-- % Extension-provided layouts".toList, "    ".toList, "-- ".toList, []⟩
  | .mouseBinding =>
    ⟨"-- % Extension-provided mouse bindings".toList, "    ".toList, "-- ".toList, []⟩

def builtin : Catalog :=
  ⟨builtinWording⟩

/-- The builtin catalog under overrides. Of several for one tag the last one holds, and no part of the
others. -/
def withOverrides (overrides : List (Tag × Override)) : Catalog :=
  ⟨fun tag =>
    match overrides.reverse.lookup tag with
    | some o => o.apply (builtinWording tag)
    | none => builtinWording tag⟩

def rule (c : Catalog) (tag : Tag) : Rule :=
  { c.wording tag with tag, target := tag.target, placement := tag.placement }

def rules (c : Catalog) : List Rule :=
  Tag.all.map c.rule

def ruleNamed (c : Catalog) (name : Text) : Except Fault Rule :=
  match Tag.ofName? name with
  | some tag => .ok (c.rule tag)
  | none => .error (.unknownTag name)

/-- The catalog of overrides that are given by name, in the order in which they are gone through. -/
def ofNamed (entries : List (Text × Override)) : Except Fault Catalog := do
  let overrides ← entries.mapM fun entry =>
    match Tag.ofName? entry.1 with
    | some tag => .ok (tag, entry.2)
    | none => .error (.unknownTag entry.1)
  return withOverrides overrides

end Catalog
end TemplateSplice
