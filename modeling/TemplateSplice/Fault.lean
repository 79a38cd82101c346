import TemplateSplice.Path
import TemplateSplice.Tag

/-!
What can go wrong, one constructor for each cause. The wording shown to the user, the code and the
advice are functions of the cause.
-/

namespace TemplateSplice

inductive FileFault where
  | notFound
  | inputOutput
  | permissionDenied
  | alreadyExists
  | notADirectory
  | isADirectory
  | storageFull
  | readOnly
  | nameTooLong
  | nameWithNul
  | invalidUtf8
  deriving DecidableEq, Repr

def FileFault.message : FileFault → Text
  | notFound => "No such file or directory (os error 2)".toList
  | inputOutput => "Input/output error (os error 5)".toList
  | permissionDenied => "Permission denied (os error 13)".toList
  | alreadyExists => "File exists (os error 17)".toList
  | notADirectory => "Not a directory (os error 20)".toList
  | isADirectory => "Is a directory (os error 21)".toList
  | storageFull => "No space left on device (os error 28)".toList
  | readOnly => "Read-only file system (os error 30)".toList
  | nameTooLong => "File name too long (os error 36)".toList
  | nameWithNul => "file name contained an unexpected NUL byte".toList
  | invalidUtf8 => "stream did not contain valid UTF-8".toList

/-- What a directory given by the user is for. -/
inductive Role where
  | main
  | contrib
  | output
  deriving DecidableEq, Repr

def Role.name : Role → Text
  | main => "main".toList
  | contrib => "contrib".toList
  | output => "output".toList

inductive Fault where
  | file (cause : FileFault)
  | unreadable (path : Path) (cause : FileFault)
  | missingDirectory (role : Role) (path : Path)
  | notADirectory (role : Role) (path : Path)
  | missingTemplate (path : Path)
  | missingMarker (tag : Tag) (marker : Text) (target : Path) (extension : Text)
  | anchorInsideCharacter (marker : Text) (target : Path)
  | unknownTag (name : Text)
  | malformedSettings
  deriving DecidableEq, Repr

namespace Fault

def quoted (t : Text) : Text :=
  '`' :: t ++ ['`']

def message : Fault → Text
  | file cause => cause.message
  | unreadable path cause => "failed to read ".toList ++ quoted path ++ ": ".toList ++ cause.message
  | missingDirectory role path =>
    role.name ++ " directory does not exist: ".toList ++ quoted path
  | notADirectory role path => role.name ++ " path is not a directory: ".toList ++ quoted path
  | missingTemplate path => "template file not found: ".toList ++ quoted path
  | missingMarker tag marker target extension =>
    "marker for ".toList ++ quoted tag.token ++ " not found in ".toList ++ quoted target ++
      ": ".toList ++ quoted marker ++ " (while processing ".toList ++ quoted extension ++ [')']
  | anchorInsideCharacter marker target =>
    "the end of field ".toList ++ quoted marker ++ " falls inside a character of ".toList ++
      quoted target
  | unknownTag name => "unknown tag: ".toList ++ quoted name
  | malformedSettings => "failed to parse config file".toList

def code : Fault → Text
  | file _ => "tagsplice::io_error".toList
  | unreadable .. => "tagsplice::read_file".toList
  | missingDirectory .. => "tagsplice::missing_directory".toList
  | notADirectory .. => "tagsplice::not_a_directory".toList
  | missingTemplate _ => "tagsplice::missing_template".toList
  | missingMarker .. => "tagsplice::marker_not_found".toList
  | anchorInsideCharacter .. => "tagsplice::anchor_inside_character".toList
  | unknownTag _ => "tagsplice::unknown_tag".toList
  | malformedSettings => "tagsplice::config_parse".toList

def help? : Fault → Option Text
  | missingDirectory role _ =>
    some ("pass an existing directory with ".toList ++ quoted ("--".toList ++ role.name))
  | notADirectory role _ =>
    some ("pass a directory, not a file, with ".toList ++ quoted ("--".toList ++ role.name))
  | missingTemplate _ =>
    some "the main directory must contain both the manifest and the config template".toList
  | missingMarker .. =>
    some ("restore the marker line in the template or override it under `[tags.*]` in " ++
      "tagsplice.toml").toList
  | unknownTag _ =>
    some ("available tags: ".toList ++ Text.join ", ".toList (Tag.all.map Tag.token))
  | malformedSettings =>
    some ("check that tagsplice.toml is valid TOML with optional [targets] and [tags.*] " ++
      "sections").toList
  | file _ | unreadable .. | anchorInsideCharacter .. => none

end Fault
end TemplateSplice
