import TemplateSplice.Text.Basic

/-!
A shortest way from one list of lines to another by deletions and insertions. The table of best
scripts is filled from the ends of both lists, one old line at a time; where a deletion and an
insertion are equally short the deletion goes first.
-/

namespace TemplateSplice.Text

inductive Edit where
  | keep (line : Text)
  | delete (line : Text)
  | insert (line : Text)
  deriving DecidableEq, Repr

structure Script where
  cost : Nat := 0
  edits : List Edit := []
  deriving DecidableEq, Repr

namespace Script

def keep (s : Script) (line : Text) : Script :=
  ⟨s.cost, .keep line :: s.edits⟩

def delete (s : Script) (line : Text) : Script :=
  ⟨s.cost + 1, .delete line :: s.edits⟩

def insert (s : Script) (line : Text) : Script :=
  ⟨s.cost + 1, .insert line :: s.edits⟩

def shorter (a b : Script) : Script :=
  if a.cost ≤ b.cost then a else b

/-- The scripts from no lines to each end of `news`, the longest end first. -/
def insertions : List Text → List Script
  | [] => [{}]
  | new :: news =>
    let shorter := insertions news
    (shorter.headD {}).insert new :: shorter

/-- The scripts from `old` and the lines behind it, given those from the lines behind it. -/
def before (old : Text) : List Text → List Script → List Script
  | [], below => [(below.headD {}).delete old]
  | new :: news, below =>
    let right := before old news below.tail
    let best :=
      if old = new then (below.tail.headD {}).keep new
      else shorter ((below.headD {}).delete old) ((right.headD {}).insert new)
    best :: right

end Script

def difference (olds news : List Text) : List Edit :=
  (olds.foldr (fun old below => Script.before old news below) (Script.insertions news)).headD {}
    |>.edits

/-- Lines with their endings, which here are a line feed, a carriage return, or both. -/
def linesWithEndings : Text → List Text
  | [] => []
  | '\n' :: rest => ['\n'] :: linesWithEndings rest
  | '\r' :: '\n' :: rest => ['\r', '\n'] :: linesWithEndings rest
  | '\r' :: rest => ['\r'] :: linesWithEndings rest
  | c :: rest =>
    match linesWithEndings rest with
    | [] => [[c]]
    | line :: lines => (c :: line) :: lines

end TemplateSplice.Text
