import Mathlib.Data.List.Basic
import Mathlib.Tactic.SplitIfs
import TemplateSplice.Command.Report

/-! What a difference shows. Every entry of the table is a script from the end of the old lines to an end
of the new ones: taking its deletions back gives the old lines, and leaving them out the new ones. Between
equal lines the script keeps them all. So a difference shows nothing exactly when there is none. -/

namespace TemplateSplice

namespace Text

namespace Edit

def old? : Edit → Option Text
  | keep line | delete line => some line
  | insert _ => none

def new? : Edit → Option Text
  | keep line | insert line => some line
  | delete _ => none

end Edit

namespace Script

/-- A script that leads from old lines to new ones. -/
structure Turns (s : Script) (olds news : List Text) : Prop where
  old : s.edits.filterMap Edit.old? = olds
  new : s.edits.filterMap Edit.new? = news

variable {s : Script} {row below : List Script} {olds news : List Text} {old new : Text}

theorem Turns.keep (h : s.Turns olds news) (line : Text) : (s.keep line).Turns (line :: olds) (line :: news) :=
  ⟨congrArg (line :: ·) h.old, congrArg (line :: ·) h.new⟩

theorem Turns.delete (h : s.Turns olds news) (line : Text) : (s.delete line).Turns (line :: olds) news :=
  ⟨congrArg (line :: ·) h.old, h.new⟩

theorem Turns.insert (h : s.Turns olds news) (line : Text) : (s.insert line).Turns olds (line :: news) :=
  ⟨h.old, congrArg (line :: ·) h.new⟩

theorem Turns.shorter {a b : Script} (ha : a.Turns olds news) (hb : b.Turns olds news) :
    (shorter a b).Turns olds news := by
  unfold Script.shorter
  split
  · exact ha
  · exact hb

/-- A row of the table: the scripts from `olds` to each end of `news`, the longest end first. -/
inductive Row (olds : List Text) : List Script → List Text → Prop
  | last {s : Script} : s.Turns olds [] → Row olds [s] []
  | more {s : Script} {row : List Script} {new : Text} {news : List Text} :
    s.Turns olds (new :: news) → Row olds row news → Row olds (s :: row) (new :: news)

theorem Row.head (h : Row olds row news) : (row.headD {}).Turns olds news := by
  cases h with
  | last hs => exact hs
  | more hs _ => exact hs

theorem row_insertions (news : List Text) : Row [] (insertions news) news := by
  induction news with
  | nil => exact .last ⟨rfl, rfl⟩
  | cons new news ih => exact .more (ih.head.insert new) ih

theorem row_before (old : Text) (h : Row olds below news) : Row (old :: olds) (before old news below) news := by
  induction h with
  | last hs => exact .last (hs.delete old)
  | @more s row new news hs hrow ih =>
    refine .more ?_ ih
    simp only [List.tail_cons, List.headD_cons]
    split_ifs with hkeep
    · rw [hkeep]
      exact hrow.head.keep new
    · exact (hs.delete old).shorter (ih.head.insert new)

end Script

def scripts (olds news : List Text) : List Script :=
  olds.foldr (fun old below => Script.before old news below) (Script.insertions news)

theorem row_scripts (olds news : List Text) : Script.Row olds (scripts olds news) news := by
  induction olds with
  | nil => exact Script.row_insertions news
  | cons old olds ih => exact Script.row_before old ih

theorem turns_difference (olds news : List Text) :
    (difference olds news).filterMap Edit.old? = olds ∧
      (difference olds news).filterMap Edit.new? = news :=
  ⟨(row_scripts olds news).head.old, (row_scripts olds news).head.new⟩

/-- The end of a row is made from the ends of the new lines and of the row below. -/
theorem drop_before (old : Text) (news : List Text) (below : List Script) {k : Nat} (hk : k ≤ news.length) :
    (Script.before old news below).drop k = Script.before old (news.drop k) (below.drop k) := by
  induction k generalizing news below with
  | zero => rfl
  | succ k ih =>
    cases news with
    | nil => cases hk
    | cons new news =>
      rw [Script.before, List.drop_succ_cons, List.drop_succ_cons, ih news below.tail (by simpa using hk),
        List.drop_tail]

theorem drop_insertions (news : List Text) : (Script.insertions news).drop news.length = [{}] := by
  induction news with
  | nil => rfl
  | cons new news ih => exact ih

theorem edits_scripts_self (lines above : List Text) :
    (((scripts lines (above ++ lines)).drop above.length).headD {}).edits = lines.map .keep := by
  induction lines generalizing above with
  | nil =>
    rw [List.append_nil, scripts, List.foldr_nil, drop_insertions]
    rfl
  | cons line lines ih =>
    have hbelow := ih (above ++ [line])
    rw [List.append_assoc, List.singleton_append, List.length_append, List.length_singleton] at hbelow
    have hrow : scripts (line :: lines) (above ++ line :: lines) =
        Script.before line (above ++ line :: lines) (scripts lines (above ++ line :: lines)) := rfl
    rw [hrow, drop_before line _ _ (by simp), List.drop_left, Script.before, List.headD_cons,
      if_pos rfl, List.tail_drop, List.map_cons, ← hbelow]
    rfl

theorem difference_self (lines : List Text) : difference lines lines = lines.map .keep :=
  edits_scripts_self lines []

theorem flatten_linesWithEndings (t : Text) : (linesWithEndings t).flatten = t := by
  fun_induction linesWithEndings t <;> simp_all

end Text

namespace Report

theorem edit_eq_nil_iff {color : Bool} {e : Text.Edit} : edit color e = [] ↔ ∃ line, e = .keep line := by
  cases e with
  | keep line => simp [edit]
  | delete line => simp [edit]
  | insert line => simp [edit]

/-- A difference shows nothing exactly when the texts are the same. -/
theorem difference_eq_nil_iff {color : Bool} {old new : Text} : difference color old new = [] ↔ old = new := by
  rw [difference, List.flatMap_eq_nil_iff]
  constructor
  · intro h
    have hkept : ∀ e ∈ Text.difference (Text.linesWithEndings old) (Text.linesWithEndings new),
        e.old? = e.new? := by
      intro e he
      obtain ⟨line, rfl⟩ := edit_eq_nil_iff.mp (h e he)
      rfl
    obtain ⟨hold, hnew⟩ := Text.turns_difference (Text.linesWithEndings old) (Text.linesWithEndings new)
    have hlines : Text.linesWithEndings old = Text.linesWithEndings new :=
      hold.symm.trans ((List.filterMap_congr hkept).trans hnew)
    rw [← Text.flatten_linesWithEndings old, hlines, Text.flatten_linesWithEndings]
  · rintro rfl e he
    rw [Text.difference_self, List.mem_map] at he
    obtain ⟨line, -, rfl⟩ := he
    rfl

end Report
end TemplateSplice
