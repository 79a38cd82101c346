import TemplateSplice.Catalog
import TemplateSplice.Text.Lines
import TemplateSplice.Text.Utf8

/-!
A draft is a generated file in the making: the lines of its template with what has been inserted so
far. The end of a field is fixed, for each marker, when the field is first added to. Later additions
go to the same place, so the latest stands closest to the field's own text, as the latest line
stands closest to its marker.
-/

namespace TemplateSplice

def Placement.accepts (p : Placement) (marker line : Text) : Bool :=
  match p with
  | .afterMarker => Text.trim line = marker
  | .fieldAppend => marker.isPrefixOf (Text.trim line)

structure Draft where
  path : Path
  lines : List Text
  /-- Whether the last line is ended by a line feed. -/
  closed : Bool
  /-- The byte offset at which each field was found to end. -/
  anchors : List (Text × Nat) := []
  deriving DecidableEq, Repr

inductive Landing where
  | line (index : Nat)
  | noMarker
  | insideCharacter
  deriving DecidableEq, Repr

namespace Draft

def ofTemplate (path : Path) (template : Text) : Draft where
  path
  lines := template.lines
  closed := template.endsInNewline

def render (d : Draft) : Text :=
  Text.ofLines d.lines d.closed

def findMarker? (d : Draft) (p : Placement) (marker : Text) : Option Nat :=
  d.lines.findIdx? (p.accepts marker)

def insertAfterMarker (d : Draft) (marker text : Text) : Draft × Landing :=
  match d.findMarker? .afterMarker marker with
  | none => (d, .noMarker)
  | some i => ({ d with lines := d.lines.insertIdx (i + 1) text }, .line (i + 1))

/-- The recorded end of a field; at first the end of the line without its trailing blanks. -/
def anchor (d : Draft) (marker line : Text) : Nat :=
  (d.anchors.lookup marker).getD (Text.byteLength (Text.trimEnd line))

def recordAnchor (d : Draft) (marker : Text) (offset : Nat) : Draft :=
  if (d.anchors.lookup marker).isSome then d
  else { d with anchors := (marker, offset) :: d.anchors }

/-- Adds to the first line that begins with the marker, at the end of the field or, if the line is
shorter, at its own end. -/
def appendToField (d : Draft) (marker text : Text) : Draft × Landing :=
  match d.findMarker? .fieldAppend marker with
  | none => (d, .noMarker)
  | some i =>
    let line := d.lines[i]?.getD []
    let offset := d.anchor marker line
    let d := d.recordAnchor marker offset
    match Text.insertAtByte? text (min offset (Text.byteLength line)) line with
    | none => (d, .insideCharacter)
    | some line => ({ d with lines := d.lines.set i line }, .line i)

def place (d : Draft) : Placement → Text → Text → Draft × Landing
  | .afterMarker => d.insertAfterMarker
  | .fieldAppend => d.appendToField

end Draft
end TemplateSplice
