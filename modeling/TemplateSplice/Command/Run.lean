import TemplateSplice.Command.Report

/-!
Commands as functions on file trees: the tree that a command leaves and its report. Only `generate`
without a dry run can leave another tree than it found.
-/

namespace TemplateSplice

namespace Inputs

variable (order : TableOrder)

def context (i : Inputs) (t : FileTree) : Except Fault Context := do
  let workspace ← Workspace.ofDirectories t i.main i.contrib i.output
  Context.load order t workspace i.mode

def generate (i : Inputs) (t : FileTree) (color dryRun showDiff : Bool) : FileTree × Report :=
  match i.context order t with
  | .error fault => (t, .ofFault fault)
  | .ok context =>
    match Generation.run t context with
    | .error fault => (t, .ofFault fault)
    | .ok g =>
      if dryRun then (t, .preview color showDiff context.workspace.output g)
      else
        match g.write t with
        | (t, some fault) => (t, .ofFault fault)
        | (t, none) => (t, .written context.workspace.output g)

def check (i : Inputs) (t : FileTree) (color showDiff : Bool) : Except Fault Report := do
  let context ← i.context order t
  let g ← Generation.run t context
  let stale ← g.check t
  return .checked color showDiff context.workspace.output stale

def list (i : Inputs) (t : FileTree) (color : Bool) (format : Format) : Except Fault Report := do
  let context ← i.context order t
  let (listing, scans) ← context.scan t
  return .listed color format context.workspace.contrib listing scans

end Inputs

def Report.ofResult : Except Fault Report → Report
  | .ok report => report
  | .error fault => .ofFault fault

def Command.run (order : TableOrder) (t : FileTree) (color : Bool) : Command → FileTree × Report
  | .generate inputs dryRun showDiff => inputs.generate order t color dryRun showDiff
  | .check inputs showDiff => (t, .ofResult (inputs.check order t color showDiff))
  | .list inputs format => (t, .ofResult (inputs.list order t color format))

/-- Runs the program on its arguments. `color` says whether colour is wanted where it is not
switched off. -/
def runArguments (order : TableOrder) (t : FileTree) (color : Bool) (args : List Text) :
    FileTree × Report :=
  match Arguments.parse? args with
  | none => (t, .misuse)
  | some .version => (t, .version)
  | some .help => (t, .help)
  | some .nothing => (t, .noCommand)
  | some (.perform command noColor) => command.run order t (color && !noColor)

end TemplateSplice
