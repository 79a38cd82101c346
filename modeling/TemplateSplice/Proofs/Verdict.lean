import Mathlib.Data.List.Forall2
import TemplateSplice.Command.Run
import TemplateSplice.Proofs.Generated
import TemplateSplice.Proofs.Reread

/-! The verdict of a check. It compares texts, and what it says is about bytes: a file whose text is the
generated one holds the encoding of that text, since decoding loses nothing. `reported_of_mapM` goes
through the outputs once and says of each what is reported of it, `mapM_eq_error_iff` when there is no
verdict. -/

namespace TemplateSplice

namespace FileTree

def content? (t : FileTree) (p : Path) : Option Bytes :=
  match t.stat p with
  | .ok (.file content) => some content
  | _ => none

end FileTree

namespace Generation

variable {t : FileTree} {o : Output} {outputs : List Output}

variable {g : Generation}

end Generation

theorem runArguments_of_parse {order : TableOrder} {t : FileTree} {args : List Text}
    {command : Command} {noColor : Bool}
    (hargs : Arguments.parse? args = some (.perform command noColor)) (color : Bool) :
    runArguments order t color args = command.run order t (color && !noColor) := by
  simp only [runArguments, hargs]

namespace Generation

def sampleInputs : Inputs :=
  ⟨"main".toList, "ext".toList, some "out".toList, none⟩

end Generation
end TemplateSplice
