import TemplateSplice.Command.Run

/-!
The program. It looks at the part of the file system that a command can touch, runs the command on
that tree, and carries out what the command has changed.
-/

namespace TemplateSplice

/-- What a command looks at before its settings are known: its directories and where settings may
lie. -/
def Inputs.outerPaths (i : Inputs) : List Path :=
  [i.main, i.contrib] ++ i.output.toList ++ Settings.candidates.map i.contrib.join

def Context.innerPaths (c : Context) : List Path :=
  [Target.manifest, .config].flatMap fun target => [c.template target, c.output target]

namespace Program

def pathOf (l : Location) : String :=
  "/" ++ "/".intercalate (l.reverse.map fun name => String.ofList (Utf8.decodeLossy name))

def takeOver (t : FileTree) (l : Location) : IO FileTree := do
  let place := (← IO.currentDir) / pathOf l
  unless ← place.pathExists do return t
  match (← place.metadata).type with
  | .dir => return (t.makeDirectory l).toOption.getD t
  | .file =>
    let content ← IO.FS.readBinFile place
    return (t.place l (.file content.toList)).toOption.getD t
  | _ => return (t.place l .device).toOption.getD t

def onTheWay (lookAt : FileTree → List Path.Component → IO FileTree) (t : FileTree) (p : Path) :
    IO FileTree :=
  let components := p.components
  (List.range components.length).foldlM (fun t i => lookAt t (components.take (i + 1))) t

/-- Takes over what `components` name, if the tree does not hold it yet. -/
def lookAtEntry (t : FileTree) (components : List Path.Component) : IO FileTree := do
  match t.walk t.cwd components with
  | .error _ => return t
  | .ok l => if (t.entry? l).isSome then return t else takeOver t l

def linkTo (t : FileTree) (l target : Location) : FileTree :=
  match l with
  | [] => t
  | name :: parent =>
    if h : t.entry? parent = some .directory ∧ t.entry? (name :: parent) = none ∧
        (∀ entry ∈ t.entries, entry.2 ≠ .link (name :: parent)) ∧
        (∀ entry ∈ t.entries, entry.1 = target → entry.2.isLink = false) ∧
        target ≠ name :: parent then
      t.link name parent target h.1 h.2.1 h.2.2.1 h.2.2.2.1 h.2.2.2.2
    else t

/-- Takes over what `components` name, and if that is a link, what it leads to. -/
def lookAt (t : FileTree) (components : List Path.Component) : IO FileTree := do
  match t.walk t.cwd components with
  | .error _ => return t
  | .ok l =>
    let place := (← IO.currentDir) / pathOf l
    unless ← place.pathExists do return t
    match (← place.symlinkMetadata).type with
    | .symlink =>
      let target : Path := (← IO.FS.realPath place).toString.toList
      let t ← onTheWay lookAtEntry t target
      return ((t.resolve target).toOption.map (linkTo t l)).getD t
    | _ => lookAtEntry t components

def look (t : FileTree) (p : Path) : IO FileTree :=
  onTheWay lookAt t p

def lookInto (t : FileTree) (dir : Path) : IO FileTree := do
  let place := (← IO.currentDir) / String.ofList dir
  if ← place.isDir then
    (← place.readDir).foldlM (fun t child => look t (dir.join child.fileName.toList)) t
  else return t

def start : IO FileTree := do
  let dir : Path := (← IO.currentDir).toString.toList
  let (t, _) := (FileTree.empty []).makeDirectories (dir :: dir.ancestors)
  return { t with cwd := (t.resolve dir).toOption.getD [] }

def survey (i : Inputs) : IO FileTree := do
  let t ← i.outerPaths.foldlM look (← start)
  let t ← lookInto t i.contrib
  match i.context .asWritten t with
  | .error _ => return t
  | .ok context => context.innerPaths.foldlM look t

def carryOut (old new : FileTree) : IO Unit :=
  new.entries.forM fun entry => do
    if old.entry? entry.1 ≠ some entry.2 then
      match entry.2 with
      | .directory => IO.FS.createDir (pathOf entry.1)
      | .file content => IO.FS.writeBinFile (pathOf entry.1) ⟨content.toArray⟩
      | .device | .link _ => return

def wantsColor : IO Bool := do
  return (← IO.getEnv "NO_COLOR").isNone && (← (← IO.getStderr).isTty)

end Program
end TemplateSplice

open TemplateSplice in
def main (args : List String) : IO UInt32 := do
  let args := args.map String.toList
  let tree ← match Arguments.parse? args with
    | some (.perform command _) => Program.survey command.inputs
    | _ => Program.start
  let (after, report) := runArguments .asWritten tree (← Program.wantsColor) args
  Program.carryOut tree after
  IO.print (String.ofList report.stdout)
  IO.eprint (String.ofList report.stderr)
  return report.exit.toUInt32
