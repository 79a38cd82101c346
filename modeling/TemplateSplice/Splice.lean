import TemplateSplice.Draft
import TemplateSplice.Scan

/-!
Splicing. Payloads are placed last to first and their heading after them, and since each text lands
closest to its marker, a block reads from top to bottom: heading, then payloads in order. Extensions
are given in reverse order for the same reason. A fault leaves what was spliced before it.
-/

namespace TemplateSplice

namespace Draft

/-- Places texts one after the other. The first that cannot be placed ends this with its fault. -/
def placeAll (d : Draft) (r : Rule) (extension : Text) : List Text → Draft × Option Fault
  | [] => (d, none)
  | text :: rest =>
    match d.place r.placement r.marker text with
    | (d, .line _) => placeAll d r extension rest
    | (d, .noMarker) => (d, some (.missingMarker r.tag r.marker d.path extension))
    | (d, .insideCharacter) => (d, some (.anchorInsideCharacter r.marker d.path))

def placements (r : Rule) (mode : Mode) (comment extension : Text) (payloads : List Text) :
    List Text :=
  payloads.reverse.map (r.render mode) ++
    if r.hasHeading then [r.heading comment extension] else []

/-- Splices one block. Its marker is looked for before anything is placed. -/
def splice (d : Draft) (r : Rule) (mode : Mode) (comment extension : Text)
    (payloads : List Text) : Draft × Option Fault :=
  if payloads = [] then (d, none)
  else
    match d.findMarker? r.placement r.marker with
    | none => (d, some (.missingMarker r.tag r.marker d.path extension))
    | some _ => d.placeAll r extension (placements r mode comment extension payloads)

end Draft

structure Drafts where
  manifest : Draft
  config : Draft
  deriving DecidableEq, Repr

namespace Drafts

def get (ds : Drafts) : Target → Draft
  | .manifest => ds.manifest
  | .config => ds.config

def set (ds : Drafts) (target : Target) (d : Draft) : Drafts :=
  match target with
  | .manifest => { ds with manifest := d }
  | .config => { ds with config := d }

end Drafts

structure Contribution where
  extension : Text
  tag : Tag
  count : Nat
  deriving DecidableEq, Repr

def Block.contribution (b : Block) : Contribution :=
  ⟨b.extension, b.tag, b.payloads.length⟩

namespace Drafts

def spliceBlock (ds : Drafts) (c : Catalog) (mode : Mode) (comment : Text) (b : Block) :
    Drafts × Option Fault :=
  let rule := c.rule b.tag
  let result := (ds.get rule.target).splice rule mode comment b.extension b.payloads
  (ds.set rule.target result.1, result.2)

def spliceBlocks (ds : Drafts) (c : Catalog) (mode : Mode) (comment : Text) :
    List Block → Drafts × Option Fault
  | [] => (ds, none)
  | b :: rest =>
    match ds.spliceBlock c mode comment b with
    | (ds, none) => spliceBlocks ds c mode comment rest
    | (ds, some fault) => (ds, some fault)

/-- Splices all scans in the given order, the tags of each in catalog order. -/
def splice (ds : Drafts) (c : Catalog) (mode : Mode) (comment : Text) (scans : List Scan) :
    Drafts × Except Fault (List Contribution) :=
  let blocks := scans.flatMap Scan.blocks
  match ds.spliceBlocks c mode comment blocks with
  | (ds, none) => (ds, .ok (blocks.map Block.contribution))
  | (ds, some fault) => (ds, .error fault)

end Drafts
end TemplateSplice
