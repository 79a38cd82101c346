import TemplateSplice.Extension
import TemplateSplice.Splice

/-!
A generation is what a run comes to: the two files with their contents, and what went into them. It
is computed before anything is written; writing it and comparing it with what is there are separate
steps.
-/

namespace TemplateSplice

structure Output where
  target : Target
  path : Path
  template : Text
  content : Text
  deriving DecidableEq, Repr

structure Generation where
  manifest : Output
  config : Output
  contributions : List Contribution
  deriving DecidableEq, Repr

/-- An output whose file is missing (`none`) or holds something else. -/
structure Stale where
  path : Path
  current : Option Text
  expected : Text
  deriving DecidableEq, Repr

def Context.readTemplate (c : Context) (t : FileTree) (target : Target) : Except Fault Text :=
  let path := c.template target
  if ¬ t.isFile path then .error (.missingTemplate path)
  else
    match t.readText path with
    | .error fault => .error (.unreadable path fault)
    | .ok template => .ok template

namespace Generation

def outputs (g : Generation) : List Output :=
  [g.manifest, g.config]

def payloadCount (g : Generation) : Nat :=
  (g.contributions.map (·.count)).foldr (· + ·) 0

def run (t : FileTree) (c : Context) : Except Fault Generation := do
  let manifest ← c.readTemplate t .manifest
  let config ← c.readTemplate t .config
  let (_, scans) ← c.scan t
  let drafts : Drafts :=
    { manifest := .ofTemplate (c.output .manifest) manifest
      config := .ofTemplate (c.output .config) config }
  let (drafts, result) := drafts.splice c.catalog c.options.mode c.options.comment scans
  let contributions ← result
  return {
    manifest := ⟨.manifest, drafts.manifest.path, manifest, drafts.manifest.render⟩
    config := ⟨.config, drafts.config.path, config, drafts.config.render⟩
    contributions }

def writeOutput (t : FileTree) (o : Output) : FileTree × Option Fault :=
  match t.makeDirectories o.path.ancestors with
  | (t, some fault) => (t, some (.file fault))
  | (t, none) =>
    match t.write o.path o.content.utf8 with
    | (t, fault?) => (t, fault?.map .file)

def writeOutputs (t : FileTree) : List Output → FileTree × Option Fault
  | [] => (t, none)
  | o :: rest =>
    match writeOutput t o with
    | (t, some fault) => (t, some fault)
    | (t, none) => writeOutputs t rest

/-- Writes the outputs one after the other. The first fault ends it, and what has been written
stays. -/
def write (g : Generation) (t : FileTree) : FileTree × Option Fault :=
  writeOutputs t g.outputs

def currentText (t : FileTree) (p : Path) : Except Fault (Option Text) :=
  if t.isFile p then
    match t.readText p with
    | .error fault => .error (.unreadable p fault)
    | .ok text => .ok (some text)
  else .ok none

def staleOutput (t : FileTree) (o : Output) : Except Fault (Option Stale) := do
  let current ← currentText t o.path
  return if current = some o.content then none else some ⟨o.path, current, o.content⟩

def check (g : Generation) (t : FileTree) : Except Fault (List Stale) := do
  return (← g.outputs.mapM (staleOutput t)).filterMap id

end Generation
end TemplateSplice
