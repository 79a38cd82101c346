import TemplateSplice.Scan
import TemplateSplice.Workspace

/-!
Extension files of a directory. The last by name is the entry point, which gathers the others and
brings nothing itself; the rest are processed in reverse order of their names.
-/

namespace TemplateSplice

structure Listing where
  processed : List Path
  entryPoint : Option Path
  deriving DecidableEq, Repr

namespace Listing

/-- The name of a file that is an extension: valid UTF-8, with the right extension, and not that of
a generated file. -/
def extension? (o : Options) (name : Bytes) : Option Text := do
  let text ← Utf8.decode? name
  if (Path.splitName text).2 = some o.sourceExtension ∧ text ≠ o.manifest ∧ text ≠ o.config then
    some text
  else none

def candidate? (o : Options) (child : Bytes × Entry) : Option Text :=
  match child.2 with
  | .file _ => extension? o child.1
  | .directory | .device | .link _ => none

def sort (names : List Text) : List Text :=
  names.mergeSort fun a b => a.utf8 ≤ b.utf8

/-- Sets the last name apart and turns the others round. -/
def ofNames (dir : Path) (names : List Text) : Listing :=
  match ((sort names).map dir.join).reverse with
  | [] => ⟨[], none⟩
  | last :: processed => ⟨processed, some last⟩

/-- A file whose path cannot be looked up is passed over. -/
def ofDirectory (t : FileTree) (dir : Path) (o : Options) : Except Fault Listing :=
  match t.list dir with
  | .error fault => .error (.file fault)
  | .ok children =>
    .ok (ofNames dir ((children.filterMap (candidate? o)).filter fun name =>
      (FileTree.pathFault? (dir.join name)).isNone))

end Listing

/-- The text of an extension file. It is never parsed, so that invalid bytes spoil their own line at
most and are no fault. -/
def FileTree.readExtension (t : FileTree) (p : Path) : Except Fault Text :=
  match t.read p with
  | .error fault => .error (.unreadable p fault)
  | .ok content => .ok (Utf8.decodeLossy content)

def FileTree.extract (t : FileTree) (p : Path) (tag : Tag) (comment : Text) :
    Except Fault (List Text) := do
  return Payload.extract tag.token comment (← t.readExtension p)

def Scan.ofFile (t : FileTree) (c : Catalog) (comment : Text) (p : Path) : Except Fault Scan := do
  return c.scan p comment (← t.readExtension p)

def Context.scan (c : Context) (t : FileTree) : Except Fault (Listing × List Scan) := do
  let listing ← Listing.ofDirectory t c.workspace.contrib c.options
  let scans ← listing.processed.mapM (Scan.ofFile t c.catalog c.options.comment)
  return (listing, scans)

end TemplateSplice
