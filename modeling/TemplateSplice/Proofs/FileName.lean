import TemplateSplice.Proofs.Reread

/-! Names of files. A name with an extension is its stem, a dot and the extension, cut at the last dot; the
path of a name in a directory ends in this name, so that the name an extension is shown by is the stem of
its file's. In a genuine tree, where everything is called as a file can be, the paths of what a directory
holds can be looked up as long as they are short enough. -/

namespace TemplateSplice

namespace Path

theorem splitName_eq_iff {name stem extension : Text} :
    splitName name = (stem, some extension) ↔
      stem ≠ [] ∧ '.' ∉ extension ∧ name = stem ++ '.' :: extension := by
  constructor
  · intro h
    rw [splitName] at h
    split at h
    · next c rest hdrop =>
      obtain ⟨rfl, hextension⟩ := Prod.mk.inj h
      obtain rfl := Option.some.inj hextension
      refine ⟨by simp, fun hdot => ?_, ?_⟩
      · simpa using List.all_eq_true.mp List.all_takeWhile _ (List.mem_reverse.mp hdot)
      · have hname := List.takeWhile_append_dropWhile (p := (· ≠ '.')) (l := name.reverse)
        rw [hdrop, ← List.reverse_inj, List.reverse_append, List.reverse_reverse] at hname
        exact hname.symm.trans (by simp)
    · cases h
  · rintro ⟨hstem, hdot, rfl⟩
    obtain ⟨c, rest, hcons⟩ := List.exists_cons_of_ne_nil (List.reverse_ne_nil_iff.mpr hstem)
    have hreverse : (stem ++ '.' :: extension).reverse = extension.reverse ++ '.' :: c :: rest := by
      simp [← hcons]
    have hall : ∀ d ∈ extension.reverse, decide (d ≠ '.') = true := by
      intro d hd
      exact decide_eq_true fun heq => hdot (heq ▸ List.mem_reverse.mp hd)
    rw [splitName, hreverse, List.takeWhile_append_of_pos hall, List.dropWhile_append_of_pos hall,
      List.takeWhile_cons_of_neg (by simp), List.dropWhile_cons_of_neg (by simp)]
    simp only [List.append_nil, List.reverse_reverse]
    rw [← hcons, List.reverse_reverse]

theorem extension_eq_some_iff {name extension : Text} :
    (splitName name).2 = some extension ↔
      ∃ stem, stem ≠ [] ∧ '.' ∉ extension ∧ name = stem ++ '.' :: extension := by
  simp only [← splitName_eq_iff]
  exact ⟨fun h => ⟨_, Prod.ext rfl h⟩, fun ⟨_, h⟩ => congrArg Prod.snd h⟩

theorem fileName?_join {name : Text} (h : IsName name) (dir : Path) :
    fileName? (dir.join name) = some name := by
  have hne : dir.join name ≠ [] := by
    rw [join_eq h.part]
    exact List.append_ne_nil_of_right_ne_nil _ h.ne_nil
  have hlast : (components (dir.join name)).getLast? = some (.name name) := by
    rw [components, if_neg hne, steps_join h.part, h.component]
    cases lead dir with
    | nil => rfl
    | cons first rest =>
      simp only [List.cons_append, List.filter_append]
      exact List.getLast?_concat (l := first :: rest.filter (· ≠ .current))
  rw [fileName?, hlast]

theorem le_byteLength_join {name : Text} (dir : Path) (h : '/' ∉ name) :
    Text.byteLength dir + Text.byteLength name ≤ Text.byteLength (dir.join name) := by
  have hslash : Text.byteLength ('/' :: name) = 1 + Text.byteLength name := rfl
  rw [join, isAbsolute_eq_false h, if_neg Bool.false_ne_true]
  split_ifs
  · exact Nat.le_of_eq (Text.byteLength_append dir name).symm
  · rw [Text.byteLength_append, hslash]
    omega

end Path

namespace FileTree

/-- A tree whose places are called as files can be: by bytes with neither a slash nor NUL among them, and
neither by nothing nor by one of the two names that a directory has for itself and the one above it. -/
def Genuine (t : FileTree) : Prop :=
  ∀ entry ∈ t.entries, ∀ name ∈ entry.1,
    (0x2F : UInt8) ∉ name ∧ (0 : UInt8) ∉ name ∧ name ∉ [[], [0x2E], [0x2E, 0x2E]]

variable {t : FileTree} {name : Text} {l : Location} {e : Entry}

theorem Genuine.wellNamed (h : t.Genuine) : t.WellNamed :=
  fun entry hentry name hname => (h entry hentry name hname).1

theorem Genuine.isName (h : t.Genuine) (he : t.entry? (name.utf8 :: l) = some e) : Path.IsName name := by
  refine ⟨h.wellNamed.part he, ?_⟩
  obtain ⟨-, -, hother⟩ := h _ (entry?_eq_some_iff.mp he) name.utf8 List.mem_cons_self
  have hempty : name ≠ [] := by
    rintro rfl
    exact hother (by decide)
  have hcurrent : name ≠ ['.'] := by
    rintro rfl
    exact hother (by decide)
  have hparent : name ≠ ['.', '.'] := by
    rintro rfl
    exact hother (by decide)
  simp [Path.Component.ofPart, hempty, hcurrent, hparent]

theorem Genuine.not_mem_nul (h : t.Genuine) (he : t.entry? (name.utf8 :: l) = some e) :
    '\x00' ∉ name := by
  intro hnul
  obtain ⟨-, hnone, -⟩ := h _ (entry?_eq_some_iff.mp he) name.utf8 List.mem_cons_self
  exact hnone (List.mem_flatMap.mpr ⟨'\x00', hnul, by decide⟩)

/-- Nothing but its length keeps the path of something in a directory from being looked up. -/
theorem Genuine.pathFault?_join_eq_none_iff (h : t.Genuine) (he : t.entry? (name.utf8 :: l) = some e)
    {dir : Path} {k : Location} (hdir : t.resolve dir = .ok k) :
    pathFault? (dir.join name) = none ↔ Text.byteLength (dir.join name) ≤ pathLimit := by
  refine pathFault?_eq_none_iff.trans ⟨fun hfault => hfault.2.2, fun hshort => ⟨?_, ?_, hshort⟩⟩
  · rw [Path.join_eq (h.isName he).part]
    exact List.append_ne_nil_of_right_ne_nil _ (h.isName he).ne_nil
  · obtain ⟨_, hlocate, -⟩ := resolve_eq_ok_iff.mp hdir
    obtain ⟨-, hclean, -⟩ := pathFault?_eq_none_iff.mp (locate_eq_ok_iff.mp hlocate).1
    have hname := h.not_mem_nul he
    unfold Path.join
    split_ifs <;> simp [hclean, hname]

end FileTree
end TemplateSplice
