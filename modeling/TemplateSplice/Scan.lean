import TemplateSplice.Catalog
import TemplateSplice.Payload

/-!
A scan of one extension file: its payloads, for each tag that brings any.
-/

namespace TemplateSplice

/-- What one extension contributes to one tag. -/
structure Block where
  extension : Text
  tag : Tag
  payloads : List Text
  deriving DecidableEq, Repr

structure Scan where
  file : Path
  /-- The tags in catalog order, each with its payloads, of which there is at least one. -/
  payloads : List (Tag × List Text)
  deriving DecidableEq, Repr

namespace Scan

def ofContent (file : Path) (comment content : Text) : Scan where
  file
  payloads := Tag.all.filterMap fun tag =>
    match Payload.extract tag.token comment content with
    | [] => none
    | found => some (tag, found)

theorem payloads_ofContent (file : Path) (comment content : Text) :
    (ofContent file comment content).payloads =
      (Tag.all.filter (Payload.extract ·.token comment content ≠ [])).map fun tag =>
        (tag, Payload.extract tag.token comment content) := by
  simp only [ofContent]
  induction Tag.all with
  | nil => rfl
  | cons tag rest ih =>
    cases h : Payload.extract tag.token comment content with
    | nil => simp [h, ih]
    | cons first found => simp [h, ih]

def name (s : Scan) : Text :=
  s.file.stem

def payloadCount (s : Scan) : Nat :=
  (s.payloads.map (·.2.length)).foldr (· + ·) 0

def blocks (s : Scan) : List Block :=
  s.payloads.map fun entry => ⟨s.name, entry.1, entry.2⟩

end Scan

def Catalog.scan (c : Catalog) (file : Path) (comment content : Text) : Scan where
  file
  payloads := c.rules.filterMap fun rule =>
    match Payload.extract rule.tag.token comment content with
    | [] => none
    | found => some (rule.tag, found)

/-- The rules of a catalog are for every tag, whatever their wording. -/
theorem Catalog.scan_eq (c : Catalog) (file : Path) (comment content : Text) :
    c.scan file comment content = Scan.ofContent file comment content := by
  rw [scan, Scan.ofContent, rules, List.filterMap_map]
  rfl

end TemplateSplice
