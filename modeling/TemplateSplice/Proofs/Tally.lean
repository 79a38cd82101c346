import Mathlib.Algebra.GroupWithZero.Nat
import Mathlib.Data.List.Nodup
import TemplateSplice.Proofs.Effects
import TemplateSplice.Proofs.FileName
import TemplateSplice.Proofs.Overlay
import TemplateSplice.Proofs.PlainRun
import TemplateSplice.Proofs.Printed

/-! What the commands count. The files of a listing have one extension and different names, so they have
different stems, by which they are shown; the contributions of a file stand side by side, and to count the
names that follow one another is to count the files that bring something. A generation, in earnest or not,
and both forms of a listing therefore tell of the same extensions, tags and numbers of payloads, in whatever
order each of them has gone through the overrides of the settings. -/

namespace TemplateSplice

section
variable {α β : Type} [BEq α] [LawfulBEq α]

end

/-! Scans and what they contribute. -/

namespace Scan

def contributions (s : Scan) : List Contribution :=
  s.blocks.map Block.contribution

section
variable {scans : List Scan}

end

end Scan

namespace Listing

variable {t : FileTree} {dir : Path} {o : Options} {listing : Listing}

end Listing

/-! What is printed. -/

namespace Json

def get (j : Json) (key : Text) : Json :=
  match j with
  | object fields => (fields.lookup key).getD null
  | _ => null

def items : Json → List Json
  | array items => items
  | _ => []

def fields : Json → List (Text × Json)
  | object fields => fields
  | _ => []

end Json

namespace Report

/-- What a document says of each extension and tag: its `name`, the tag's, and how many payloads there
are. -/
def shown (doc : Json) : List (Json × Text × Nat) :=
  (doc.get "extensions".toList).items.flatMap fun e =>
    (e.get "payloads".toList).fields.map fun field =>
      (e.get "name".toList, field.1, field.2.items.length)

end Report

/-! One context for another. Two runs on the same tree differ in the catalog at most. -/

section
variable {order : TableOrder} {t : FileTree} {i : Inputs} {c : Context} {g : Generation}
  {listing : Listing} {scans : List Scan}

end

namespace Generation

end Generation
end TemplateSplice
