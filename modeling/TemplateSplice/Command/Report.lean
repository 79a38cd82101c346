import TemplateSplice.Command.Arguments
import TemplateSplice.Generation
import TemplateSplice.Text.Difference
import TemplateSplice.Text.Json

/-!
What the commands show. Texts for the user are built here from the results of a run and from nothing
else.
-/

namespace TemplateSplice

/-- What a command leaves behind for its caller. -/
structure Report where
  exit : Nat := 0
  stdout : Text := []
  stderr : Text := []
  fault : Option Fault := none
  deriving DecidableEq, Repr

namespace Report

inductive Paint where
  | red
  | green
  | yellow
  | bold
  deriving DecidableEq, Repr

def Paint.begin : Paint → Text
  | red => "\x1b[31m".toList
  | green => "\x1b[32m".toList
  | yellow => "\x1b[33m".toList
  | bold => "\x1b[1m".toList

def Paint.stop : Paint → Text
  | red | green | yellow => "\x1b[39m".toList
  | bold => "\x1b[0m".toList

def paint (color : Bool) (p : Paint) (t : Text) : Text :=
  if color then p.begin ++ t ++ p.stop else t

def line (t : Text) : Text :=
  t ++ ['\n']

/-- A line of a difference, ended if it is not. -/
def ended (t : Text) : Text :=
  if t.getLast? = some '\n' ∨ t.getLast? = some '\r' then t else line t

def edit (color : Bool) : Text.Edit → Text
  | .keep _ => []
  | .delete t => "  ".toList ++ paint color .red ('-' :: ended t)
  | .insert t => "  ".toList ++ paint color .green ('+' :: ended t)

def difference (color : Bool) (old new : Text) : Text :=
  (Text.difference (Text.linesWithEndings old) (Text.linesWithEndings new)).flatMap (edit color)

def ofFault (fault : Fault) : Report where
  exit := 2
  stderr :=
    line fault.code ++ line ("  × ".toList ++ fault.message) ++
      match fault.help? with
      | some help => line ("  help: ".toList ++ help)
      | none => []
  fault := some fault

def pathLine (root p : Path) : Text :=
  line ("  ".toList ++ p.relativeTo root)

/-- How many extensions contributions come from. Those of one extension stand side by side. -/
def extensionCount (contributions : List Contribution) : Nat :=
  (contributions.map (·.extension)).eraseReps.length

def totals (g : Generation) : Text :=
  Text.ofNat g.outputs.length ++ " file(s) with ".toList ++ Text.ofNat g.payloadCount ++
    " payload(s) from ".toList ++ Text.ofNat (extensionCount g.contributions) ++
    " extension(s)".toList

def preview (color showDiff : Bool) (root : Path) (g : Generation) : Report where
  stdout := line ("Dry run: would write ".toList ++ totals g ++ [':']) ++
    g.outputs.flatMap fun o => pathLine root o.path
  stderr :=
    if showDiff then g.outputs.flatMap fun o => difference color o.template o.content else []

def written (root : Path) (g : Generation) : Report where
  stdout := line ("Generated ".toList ++ totals g ++ ['.']) ++
    g.outputs.flatMap fun o => pathLine root o.path

def staleLines (color showDiff : Bool) (root : Path) (s : Stale) : Text :=
  let shown := "  ".toList ++ s.path.relativeTo root
  match s.current with
  | none => line (shown ++ " is missing".toList)
  | some current =>
    line (shown ++ " is out of date".toList) ++
      if showDiff then difference color current s.expected else []

def checked (color showDiff : Bool) (root : Path) (stale : List Stale) : Report :=
  if stale = [] then { stdout := line "Check passed: generated files are up to date.".toList }
  else
    { exit := 1
      stderr := line "Check failed.".toList ++ stale.flatMap (staleLines color showDiff root) ++
        line [] ++
        line (paint color .yellow "warning:".toList ++ [' '] ++ Text.ofNat stale.length ++
          " generated file(s) are stale. Run `tagsplice generate` to fix.".toList) }

def scanLine (root : Path) (s : Scan) : Text :=
  let tags :=
    if s.payloads = [] then "no tags".toList
    else Text.join ", ".toList (s.payloads.map fun entry =>
      entry.1.token ++ ": ".toList ++ Text.ofNat entry.2.length)
  line ("  ".toList ++ s.name ++ [' '] ++ s.file.relativeTo root ++ " (".toList ++ tags ++ [')'])

def payloadTotal (scans : List Scan) : Nat :=
  (scans.map Scan.payloadCount).foldr (· + ·) 0

def listedText (color : Bool) (root : Path) (listing : Listing) (scans : List Scan) : Text :=
  (if scans = [] then line "No extension files found.".toList
    else line (paint color .bold "Extensions (processing order):".toList) ++
      scans.flatMap (scanLine root)) ++
  (match listing.entryPoint with
    | some p => line ("\nEntry point (skipped): ".toList ++ p.relativeTo root)
    | none => []) ++
  line ('\n' :: Text.ofNat scans.length ++ " extension(s), ".toList ++
    Text.ofNat (payloadTotal scans) ++ " payload(s)".toList)

def scanJson (root : Path) (s : Scan) : Json :=
  .object [
    ("file".toList, .string (s.file.relativeTo root)),
    ("name".toList, .string s.name),
    ("payloads".toList, .object (s.payloads.map fun entry =>
      (entry.1.name, .array (entry.2.map .string))))]

def listedJson (root : Path) (listing : Listing) (scans : List Scan) : Json :=
  .object [
    ("entry_point".toList,
      match listing.entryPoint with
      | some p => .string (p.relativeTo root)
      | none => .null),
    ("extensions".toList, .array (scans.map (scanJson root)))]

def listed (color : Bool) (format : Format) (root : Path) (listing : Listing) (scans : List Scan) :
    Report where
  stdout :=
    match format with
    | .text => listedText color root listing scans
    | .json => line (listedJson root listing scans).render

def version : Report where
  stdout := line "tagsplice_cli 0.1.0".toList

def help : Report where
  stdout :=
    ["Splice tagged payloads from extension sources into generated build files.",
     "",
     "Usage: tagsplice [OPTIONS] [COMMAND]",
     "",
     "Commands:",
     "  generate  Generate the manifest and config from their templates",
     "  check     Check that the generated files in the output directory are up to date",
     "  list      List the extension files and what each one contributes",
     "  help      Print this message",
     "",
     "Options of the commands:",
     "  -m, --main <DIR>      Directory holding the manifest and config templates",
     "  -c, --contrib <DIR>   Directory holding the extension source files",
     "  -o, --output <DIR>    Directory the generated files are written to",
     "      --mode <MODE>     Insert contributions live or commented out [active, passive]",
     "      --dry-run         Preview the run without writing files (generate)",
     "      --diff            Show the lines that change (generate --dry-run, check)",
     "      --format <FORMAT> Output format for the listing [text, json] (list)",
     "",
     "Options:",
     "  -v, --verbose   Enable verbose output",
     "      --no-color  Disable colored output",
     "  -h, --help      Print help",
     "  -V, --version   Print version"].flatMap fun t => line t.toList

def noCommand : Report where
  exit := 1
  stderr := line "No subcommand specified. Run `tagsplice --help` for usage.".toList

def misuse : Report where
  exit := 2
  stderr := line "error: the arguments are not valid. For more information, try '--help'.".toList

end Report
end TemplateSplice
