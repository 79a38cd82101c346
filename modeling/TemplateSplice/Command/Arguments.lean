import TemplateSplice.Settings

/-!
The command line. Options that concern every command may stand before it or behind it; each may be
given once on either side. An option's value follows it, either as the next argument or attached to
it.
-/

namespace TemplateSplice

/-- The directories and the mode that every command takes. -/
structure Inputs where
  main : Path
  contrib : Path
  output : Option Path
  mode : Option Mode
  deriving DecidableEq, Repr

inductive Format where
  | text
  | json
  deriving DecidableEq, Repr

inductive Command where
  | generate (inputs : Inputs) (dryRun showDiff : Bool)
  | check (inputs : Inputs) (showDiff : Bool)
  | list (inputs : Inputs) (format : Format)
  deriving DecidableEq, Repr

def Command.inputs : Command → Inputs
  | .generate inputs .. => inputs
  | .check inputs _ => inputs
  | .list inputs _ => inputs

inductive Request where
  | version
  | help
  | nothing
  | perform (command : Command) (noColor : Bool)
  deriving DecidableEq, Repr

namespace Arguments

inductive Flag where
  | verbose
  | noColor
  | help
  | version
  | dryRun
  | diff
  | main
  | contrib
  | output
  | mode
  | format
  deriving DecidableEq, Repr

namespace Flag

def long : Flag → Text
  | verbose => "verbose".toList
  | noColor => "no-color".toList
  | help => "help".toList
  | version => "version".toList
  | dryRun => "dry-run".toList
  | diff => "diff".toList
  | main => "main".toList
  | contrib => "contrib".toList
  | output => "output".toList
  | mode => "mode".toList
  | format => "format".toList

def short? : Flag → Option Char
  | verbose => some 'v'
  | help => some 'h'
  | version => some 'V'
  | main => some 'm'
  | contrib => some 'c'
  | output => some 'o'
  | noColor | dryRun | diff | mode | format => none

def takesValue : Flag → Bool
  | main | contrib | output | mode | format => true
  | verbose | noColor | help | version | dryRun | diff => false

end Flag

def formatNamed? (name : Text) : Option Format :=
  if name = "text".toList then some .text
  else if name = "json".toList then some .json
  else none

def admits (flag : Flag) (value : Text) : Bool :=
  match flag with
  | .main | .contrib | .output => value ≠ []
  | .mode => (Settings.modeNamed? value).isSome
  | .format => (formatNamed? value).isSome
  | _ => value = []

inductive Stop where
  | help
  | version
  | usage
  deriving DecidableEq, Repr

abbrev Seen := List (Flag × Text)

def record (seen : Seen) (flag : Flag) (value : Text) : Except Stop Seen :=
  if flag = .help then .error .help
  else if flag = .version then .error .version
  else if (seen.lookup flag).isSome ∨ ¬ admits flag value then .error .usage
  else .ok ((flag, value) :: seen)

def isDashed (arg : Text) : Bool :=
  arg.head? = some '-' && arg ≠ ['-']

/-- Reads the letters behind a single dash. A flag among them that takes a value takes the letters
behind it; if there are none, it waits for the next argument. -/
def readLetters (known : List Flag) : Text → Seen → Except Stop (Seen × Option Flag)
  | [], seen => .ok (seen, none)
  | c :: rest, seen =>
    match known.find? (·.short? = some c) with
    | none => .error .usage
    | some flag =>
      if flag.takesValue then
        match rest with
        | [] => .ok (seen, some flag)
        | '=' :: value => (record seen flag value).map (·, none)
        | value => (record seen flag value).map (·, none)
      else do readLetters known rest (← record seen flag [])

def readWord (known : List Flag) (word : Text) (seen : Seen) : Except Stop (Seen × Option Flag) :=
  match known.find? (·.long = word.takeWhile (· ≠ '=')) with
  | none => .error .usage
  | some flag =>
    match word.dropWhile (· ≠ '=') with
    | _ :: value =>
      if flag.takesValue then (record seen flag value).map (·, none) else .error .usage
    | [] => if flag.takesValue then .ok (seen, some flag) else (record seen flag []).map (·, none)

def readFlag (known : List Flag) (arg : Text) (seen : Seen) : Except Stop (Seen × Option Flag) :=
  match arg with
  | '-' :: '-' :: word => readWord known word seen
  | _ :: letters => readLetters known letters seen
  | [] => .error .usage

/-- Reads flags up to the first argument that is none, and returns it with all that follow. -/
def readFlags (known : List Flag) : List Text → Seen → Except Stop (Seen × List Text)
  | [], seen => .ok (seen, [])
  | arg :: rest, seen =>
    if arg = ['-', '-'] then
      if rest = [] then .ok (seen, []) else .error .usage
    else if ¬ isDashed arg then .ok (seen, arg :: rest)
    else
      match readFlag known arg seen with
      | .error stop => .error stop
      | .ok (seen, none) => readFlags known rest seen
      | .ok (seen, some flag) =>
        match rest with
        | [] => .error .usage
        | value :: rest =>
          if isDashed value then .error .usage
          else
            match record seen flag value with
            | .error stop => .error stop
            | .ok seen => readFlags known rest seen

def commonFlags : List Flag :=
  [.verbose, .noColor, .help]

def inputFlags : List Flag :=
  [.main, .contrib, .output, .mode]

def inputs? (seen : Seen) : Option Inputs := do
  return {
    main := ← seen.lookup .main
    contrib := ← seen.lookup .contrib
    output := seen.lookup .output
    mode := (seen.lookup .mode).bind Settings.modeNamed? }

def command? (name : Text) : Option (List Flag × (Inputs → Seen → Command)) :=
  if name = "generate".toList then
    some ([.dryRun, .diff], fun inputs seen =>
      .generate inputs (seen.lookup .dryRun).isSome (seen.lookup .diff).isSome)
  else if name = "check".toList then
    some ([.diff], fun inputs seen => .check inputs (seen.lookup .diff).isSome)
  else if name = "list".toList then
    some ([.format], fun inputs seen =>
      .list inputs (((seen.lookup .format).bind formatNamed?).getD .text))
  else none

def isCommand (name : Text) : Bool :=
  (command? name).isSome || name = "help".toList

def readCommand (outer : Seen) (name : Text) (rest : List Text) : Except Stop Request :=
  if name = "help".toList then
    match rest with
    | [] => .error .help
    | [topic] => .error (if isCommand topic then .help else .usage)
    | _ => .error .usage
  else
    match command? name with
    | none => .error .usage
    | some (flags, make) => do
      let (seen, rest) ← readFlags (commonFlags ++ inputFlags ++ flags) rest []
      if rest ≠ [] then throw .usage
      let noColor := (outer.lookup .noColor).isSome || (seen.lookup .noColor).isSome
      match inputs? seen with
      | none => throw .usage
      | some inputs => return .perform (make inputs seen) noColor

def read (args : List Text) : Except Stop Request := do
  let (seen, rest) ← readFlags (.version :: commonFlags) args []
  match rest with
  | [] => return .nothing
  | name :: rest => readCommand seen name rest

/-- The request that the arguments make, or `none` if they are misused. -/
def parse? (args : List Text) : Option Request :=
  match read args with
  | .ok request => some request
  | .error .help => some .help
  | .error .version => some .version
  | .error .usage => none

end Arguments
end TemplateSplice
