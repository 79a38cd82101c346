import TemplateSplice.FileTree
import TemplateSplice.Settings

/-!
A workspace names the three directories of a run; a context adds the options and the catalog that
hold in it.
-/

namespace TemplateSplice

structure Workspace where
  /-- Holds the templates. -/
  main : Path
  /-- Holds the extension files. -/
  contrib : Path
  /-- Takes the generated files. -/
  output : Path
  deriving DecidableEq, Repr

namespace Workspace

def requireDirectory (t : FileTree) (role : Role) (p : Path) : Except Fault Unit :=
  if ¬ t.has p then .error (.missingDirectory role p)
  else if ¬ t.isDirectory p then .error (.notADirectory role p)
  else .ok ()

/-- The two input directories have to be there. The output directory need not be, and is the contrib
directory if none is given. -/
def ofDirectories (t : FileTree) (main contrib : Path) (output : Option Path) :
    Except Fault Workspace := do
  requireDirectory t .main main
  requireDirectory t .contrib contrib
  let output := output.getD contrib
  if t.has output ∧ ¬ t.isDirectory output then throw (.notADirectory .output output)
  return { main, contrib, output }

end Workspace

/-- Where settings are looked for in a directory, the first that is a file being the one. -/
def Settings.candidates : List Path :=
  ["tagsplice.toml".toList, ".tagsplice.toml".toList, ".config/tagsplice.toml".toList]

def Settings.path? (t : FileTree) (dir : Path) : Option Path :=
  (candidates.map dir.join).find? t.isFile

def Settings.load (t : FileTree) (dir : Path) : Except Fault Settings :=
  match Settings.path? t dir with
  | none => .ok {}
  | some p =>
    match t.readText p with
    | .error fault => .error (.file fault)
    | .ok content => Settings.parse content

structure Context where
  workspace : Workspace
  options : Options
  catalog : Catalog

namespace Context

def template (c : Context) (target : Target) : Path :=
  c.workspace.main.join (c.options.fileName target)

def output (c : Context) (target : Target) : Path :=
  c.workspace.output.join (c.options.fileName target)

def load (order : TableOrder) (t : FileTree) (w : Workspace) (mode : Option Mode) :
    Except Fault Context := do
  let settings ← Settings.load t w.contrib
  let catalog ← settings.catalog order
  return { workspace := w, options := settings.options mode, catalog }

end Context
end TemplateSplice
