import TemplateSplice.Catalog
import TemplateSplice.Toml.Document

/-!
Settings are what a settings file in the contrib directory chooses; options are what a run goes by,
after the command line and the defaults have had their say.
-/

namespace TemplateSplice

structure Options where
  mode : Mode := .passive
  /-- The extension of extension files, without its dot. -/
  sourceExtension : Text := "hs".toList
  comment : Text := "--".toList
  manifest : Text := "xmonad.cabal".toList
  config : Text := "Config.hs".toList
  deriving DecidableEq, Repr

def Options.fileName (o : Options) : Target → Text
  | .manifest => o.manifest
  | .config => o.config

/-- The order in which a run goes through the overrides of its settings. They are kept in a table that has
no order of its own, so that every run may find another. -/
structure TableOrder where
  arrange : List (Text × Override) → List (Text × Override)
  perm : ∀ entries, (arrange entries).Perm entries

def TableOrder.asWritten : TableOrder :=
  ⟨id, fun _ => .refl _⟩

structure Settings where
  mode : Option Mode := none
  sourceExtension : Option Text := none
  comment : Option Text := none
  manifest : Option Text := none
  config : Option Text := none
  /-- Overrides by tag name, in the order of the file. -/
  tags : List (Text × Override) := []
  deriving DecidableEq, Repr

namespace Settings

open Toml (Value Table)

def text? : Value → Option Text
  | .string t => some t
  | _ => none

/-- A record may be written as a table, or as an array that gives its fields in order. The array may
stop early; what it has beyond the last field is not looked at. -/
def record? (fields : List Text) : Value → Option (List (Text × Value))
  | .table _ entries =>
    if entries.all fun entry => fields.contains entry.1 then some entries else none
  | .array items => some (fields.zip items)
  | .tables items => some (fields.zip (items.map (.table .header ·)))
  | _ => none

def field? (entries : List (Text × Value)) (field : Text) : Option (Option Text) :=
  match entries.lookup field with
  | none => some none
  | some v => (text? v).map some

def modeNamed? (name : Text) : Option Mode :=
  if name = "active".toList then some .active
  else if name = "passive".toList then some .passive
  else none

/-- A mode is a name, or a table whose only key is the name and whose value is empty. -/
def mode? : Value → Option Mode
  | .string name => modeNamed? name
  | .table _ [(name, .table _ [])] => modeNamed? name
  | .table _ [(name, .array [])] => modeNamed? name
  | _ => none

def targetFields : List Text :=
  ["manifest".toList, "config".toList]

def overrideFields : List Text :=
  ["marker".toList, "indent".toList, "passive_prefix".toList, "active_prefix".toList]

def override? (v : Value) : Option Override := do
  let entries ← record? overrideFields v
  return {
    marker := ← field? entries "marker".toList
    indent := ← field? entries "indent".toList
    passivePrefix := ← field? entries "passive_prefix".toList
    activePrefix := ← field? entries "active_prefix".toList }

def targets? (s : Settings) (v : Value) : Option Settings := do
  let entries ← record? targetFields v
  return { s with
    manifest := ← field? entries "manifest".toList
    config := ← field? entries "config".toList }

def tags? : Value → Option (List (Text × Override))
  | .table _ entries => entries.mapM fun entry => (override? entry.2).map (entry.1, ·)
  | _ => none

def add? (s : Settings) (entry : Text × Value) : Option Settings :=
  let key := entry.1
  if key = "mode".toList then (mode? entry.2).map ({ s with mode := some · })
  else if key = "source_extension".toList then
    (text? entry.2).map ({ s with sourceExtension := some · })
  else if key = "comment".toList then (text? entry.2).map ({ s with comment := some · })
  else if key = "targets".toList then s.targets? entry.2
  else if key = "tags".toList then (tags? entry.2).map ({ s with tags := · })
  else none

def ofTable? (t : Table) : Option Settings :=
  t.foldlM add? {}

def parse (content : Text) : Except Fault Settings :=
  match Toml.read? content >>= ofTable? with
  | some settings => .ok settings
  | none => .error .malformedSettings

def catalog (s : Settings) (order : TableOrder) : Except Fault Catalog :=
  Catalog.ofNamed (order.arrange s.tags)

/-- The options of a run. A mode that is asked for wins over the one that is set. -/
def options (s : Settings) (mode : Option Mode) : Options :=
  let defaults : Options := {}
  { mode := (mode.or s.mode).getD defaults.mode
    sourceExtension := s.sourceExtension.getD defaults.sourceExtension
    comment := s.comment.getD defaults.comment
    manifest := s.manifest.getD defaults.manifest
    config := s.config.getD defaults.config }

end Settings
end TemplateSplice
