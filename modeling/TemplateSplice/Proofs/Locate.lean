import TemplateSplice.Proofs.Lines
import TemplateSplice.FileTree

/-! Where the paths of a directory lead. What a directory holds is reached by one step more than the
directory itself, so a path that ends in a name leads to that name in the place that the path of the
directory with a `.` leads to, or behind the link that is there, and a path that leads to a file ends in
a name. A place that no link leads to is reached by its own name alone. -/

namespace TemplateSplice

namespace Path

/-- What a directory can hold a file by: one part of a path that is a component of its own. -/
structure IsName (name : Text) : Prop where
  part : '/' ∉ name
  component : Component.ofPart name = .name name

/-- The components of a directory that stand before those of what lies in it. -/
def lead (dir : Path) : List Component :=
  (steps (dir.join [])).dropLast

theorem Component.ofPart_cases (part : Text) :
    ofPart part = .current ∨ ofPart part = .parent ∨ ofPart part = .name part := by
  unfold ofPart
  split_ifs <;> simp

theorem IsName.ne_nil {name : Text} (h : IsName name) : name ≠ [] := by
  rintro rfl
  have := h.component
  simp [Component.ofPart] at this

theorem isAbsolute_eq_false {name : Text} (h : '/' ∉ name) : isAbsolute name = false := by
  cases name with
  | nil => rfl
  | cons c rest =>
    have hc : '/' ≠ c := List.ne_of_not_mem_cons h
    simpa [isAbsolute] using hc.symm

theorem join_eq {name : Text} (h : '/' ∉ name) (dir : Path) :
    dir.join name = dir.join [] ++ name := by
  unfold join
  rw [isAbsolute_eq_false h, isAbsolute_eq_false List.not_mem_nil]
  split_ifs <;> simp_all

/-- What names are written behind is empty or ends in a slash. -/
theorem join_nil_cases (dir : Path) : dir.join [] = [] ∨ ∃ base, dir.join [] = base ++ ['/'] := by
  by_cases h : dir = [] ∨ dir.getLast? = some '/'
  · have hdir : dir.join [] = dir := by simp [join, isAbsolute, h]
    rw [hdir]
    exact h.imp_right List.getLast?_eq_some_iff.mp
  · have hdir : dir.join [] = dir ++ ['/'] := by simp [join, isAbsolute, h]
    exact Or.inr ⟨dir, hdir⟩

theorem steps_of_not_mem {name : Text} (h : '/' ∉ name) : steps name = [Component.ofPart name] := by
  simp only [steps, Text.split_of_not_mem h, isAbsolute_eq_false h, List.map_nil]
  rfl

theorem steps_slash {name : Text} (h : '/' ∉ name) (base : Path) :
    ∃ components, steps (base ++ '/' :: name) = components ++ [Component.ofPart name] ∧
      steps (base ++ ['/']) = components ++ [.current] := by
  obtain ⟨first, rest, hbase⟩ := List.exists_cons_of_ne_nil (Text.split_ne_nil '/' base)
  have hsplit {part : Text} (hpart : '/' ∉ part) :
      Text.split '/' (base ++ '/' :: part) = first :: (rest ++ [part]) := by
    rw [Text.split_append, Text.split_of_not_mem hpart, hbase]
    rfl
  -- whether the path is absolute is settled before its last part
  have habsolute : isAbsolute (base ++ '/' :: name) = isAbsolute (base ++ ['/']) := by
    cases base <;> rfl
  refine ⟨(if isAbsolute (base ++ ['/']) then .root else Component.ofPart first) ::
    rest.map Component.ofPart, ?_, ?_⟩
  · simp only [steps, hsplit h, habsolute, List.map_append, List.cons_append, List.map_cons,
      List.map_nil]
  · simp only [steps, hsplit List.not_mem_nil, List.map_append, List.cons_append, List.map_cons,
      List.map_nil]
    rfl

theorem steps_join {name : Text} (h : '/' ∉ name) (dir : Path) :
    steps (dir.join name) = lead dir ++ [Component.ofPart name] := by
  rw [join_eq h, lead]
  rcases join_nil_cases dir with hdir | ⟨base, hdir⟩
  · rw [hdir, List.nil_append, steps_of_not_mem h]
    rfl
  · obtain ⟨components, hname, hslash⟩ := steps_slash h base
    rw [hdir, List.append_assoc, List.singleton_append, hname, hslash, List.dropLast_concat]

end Path

namespace FileTree

theorem pathFault?_eq_none_iff {p : Path} :
    pathFault? p = none ↔ p ≠ [] ∧ '\x00' ∉ p ∧ Text.byteLength p ≤ pathLimit := by
  unfold pathFault?
  split_ifs with hempty hnul hlong <;> simp_all

theorem locate_eq_ok_iff {t : FileTree} {p : Path} {l : Location} :
    t.locate p = .ok l ↔ pathFault? p = none ∧ t.walk t.cwd p.steps = .ok l := by
  unfold locate
  cases pathFault? p <;> simp

/-- A path leads to the place that it names, or behind the link that is there. -/
theorem resolve_eq_ok_iff {t : FileTree} {p : Path} {l : Location} :
    t.resolve p = .ok l ↔ ∃ k, t.locate p = .ok k ∧ t.follow k = l := by
  unfold resolve
  cases t.locate p <;> simp [Except.map]

/-! Links. -/

theorem follow_cases (t : FileTree) (l : Location) :
    t.entry? l = some (.link (t.follow l)) ∨
      (∀ target, t.entry? l ≠ some (.link target)) ∧ t.follow l = l := by
  unfold follow
  split
  · next target h => exact Or.inl h
  · next hother => exact Or.inr ⟨hother, rfl⟩

theorem follow_of_entry {t : FileTree} {l : Location} {e : Entry} (h : t.entry? l = some e)
    (he : e.isLink = false) : t.follow l = l := by
  rcases t.follow_cases l with hlink | ⟨-, hsame⟩
  · obtain rfl := Option.some.inj (h.symm.trans hlink)
    cases he
  · exact hsame

theorem follow_of_none {t : FileTree} {l : Location} (h : t.entry? l = none) : t.follow l = l := by
  rcases t.follow_cases l with hlink | ⟨-, hsame⟩
  · rw [h] at hlink; cases hlink
  · exact hsame

theorem isLink_of_follow {t : FileTree} {l : Location} {e : Entry} (h : t.entry? (t.follow l) = some e) :
    e.isLink = false := by
  rcases t.follow_cases l with hlink | ⟨hother, hsame⟩
  · exact t.link_final _ (entry?_eq_some_iff.mp hlink) _ (entry?_eq_some_iff.mp h) rfl
  · rw [hsame] at h
    cases e with
    | link target => exact absurd h (hother target)
    | _ => rfl

theorem exists_entry_of_follow {t : FileTree} {l : Location} {e : Entry}
    (h : t.entry? (t.follow l) = some e) : ∃ e', t.entry? l = some e' := by
  rcases t.follow_cases l with hlink | ⟨-, hsame⟩
  · exact ⟨_, hlink⟩
  · exact ⟨e, hsame ▸ h⟩

theorem follow_follow (t : FileTree) (l : Location) : t.follow (t.follow l) = t.follow l := by
  cases h : t.entry? (t.follow l) with
  | none => exact follow_of_none h
  | some e => exact follow_of_entry h (isLink_of_follow h)

def Unlinked (t : FileTree) (l : Location) : Prop :=
  ∀ entry ∈ t.entries, entry.2 ≠ .link l

theorem unlinked_of_no_link {t : FileTree} (h : ∀ entry ∈ t.entries, entry.2.isLink = false)
    (l : Location) : t.Unlinked l := by
  rintro entry hentry hlink
  have := h entry hentry
  rw [hlink] at this
  cases this

/-- Where no link leads to, one gets by its own name only. -/
theorem Unlinked.eq_of_follow {t : FileTree} {l k : Location} (h : t.Unlinked l) (hk : t.follow k = l) :
    k = l := by
  rcases t.follow_cases k with hlink | ⟨-, hsame⟩
  · exact absurd (congrArg Entry.link hk) (h _ (entry?_eq_some_iff.mp hlink))
  · exact hsame.symm.trans hk

/-! Ways. -/

theorem enter_name_eq_ok_iff {l k : Location} {name : Text} :
    enter l (.name name) = .ok k ↔ Text.byteLength name ≤ nameLimit ∧ k = name.utf8 :: l := by
  simp only [enter]
  split_ifs with hlong
  · simp [Nat.not_le.mpr hlong]
  · simp [Nat.not_lt.mp hlong, eq_comm]

theorem walk_cons_eq_ok_iff {t : FileTree} {l k : Location} {c : Path.Component}
    {rest : List Path.Component} (hc : c ≠ .root) :
    t.walk l (c :: rest) = .ok k ↔ t.entry? (t.follow l) = some .directory ∧
      ∃ next, enter (t.follow l) c = .ok next ∧ t.walk next rest = .ok k := by
  rw [walk.eq_3 t l c rest hc]
  split
  · next hdirectory =>
    cases enter (t.follow l) c with
    | error fault => simp
    | ok next => simp [hdirectory]
  · next hother => simp_all
  · next hnone => simp [hnone]

theorem walk_append_eq_ok_iff {t : FileTree} {l k : Location} {first second : List Path.Component} :
    t.walk l (first ++ second) = .ok k ↔
      ∃ next, t.walk l first = .ok next ∧ t.walk next second = .ok k := by
  induction first generalizing l with
  | nil => simp [walk]
  | cons c rest ih =>
    by_cases hc : c = .root
    · rw [hc]
      exact ih
    · simp only [List.cons_append, walk_cons_eq_ok_iff hc, ih]
      constructor
      · rintro ⟨hl, next, henter, middle, hfirst, hsecond⟩
        exact ⟨middle, ⟨hl, next, henter, hfirst⟩, hsecond⟩
      · rintro ⟨middle, ⟨hl, next, henter, hfirst⟩, hsecond⟩
        exact ⟨hl, next, henter, middle, hfirst, hsecond⟩

theorem entry?_tail {t : FileTree} {l : Location} (h : t.entry? l = some .directory) :
    t.entry? l.tail = some .directory := by
  cases l with
  | nil => exact h
  | cons name parent =>
    exact entry?_eq_some_iff.mpr (t.parent_mem name parent _ (entry?_eq_some_iff.mp h))

/-- The directory in which names are looked up that are written behind a path. -/
structure Holds (t : FileTree) (dir : Path) (l : Location) : Prop where
  lead : ∃ k, t.walk t.cwd dir.lead = .ok k ∧ t.follow k = l
  directory : t.entry? l = some .directory

/-- The path of a name leads one step further than the way to its directory. -/
theorem resolve_join_eq_ok_iff {t : FileTree} {dir : Path} {name : Text} {k : Location}
    (h : '/' ∉ name) :
    t.resolve (dir.join name) = .ok k ↔ pathFault? (dir.join name) = none ∧
      ∃ l, t.Holds dir l ∧ ∃ next, enter l (Path.Component.ofPart name) = .ok next ∧
        t.follow next = k := by
  have hroot : Path.Component.ofPart name ≠ .root := by
    rcases Path.Component.ofPart_cases name with hpart | hpart | hpart <;> simp [hpart]
  simp only [resolve_eq_ok_iff, locate_eq_ok_iff, Path.steps_join h, walk_append_eq_ok_iff,
    walk_cons_eq_ok_iff hroot, walk.eq_1, Except.ok.injEq, exists_eq_right]
  constructor
  · rintro ⟨next, ⟨hfault, before, hlead, hdirectory, henter⟩, hk⟩
    exact ⟨hfault, _, ⟨⟨before, hlead, rfl⟩, hdirectory⟩, next, henter, hk⟩
  · rintro ⟨hfault, l, ⟨⟨before, hlead, rfl⟩, hdirectory⟩, next, henter, hk⟩
    exact ⟨next, ⟨hfault, before, hlead, hdirectory, henter⟩, hk⟩

theorem isName_of_resolve {t : FileTree} {dir : Path} {name : Text} {k : Location} (h : '/' ∉ name)
    (hk : t.resolve (dir.join name) = .ok k) (hentry : t.entry? k ≠ some .directory) :
    Path.IsName name := by
  obtain ⟨-, l, ⟨-, hl⟩, next, henter, rfl⟩ := (resolve_join_eq_ok_iff h).mp hk
  rcases Path.Component.ofPart_cases name with hpart | hpart | hpart
  · rw [hpart] at henter
    cases henter
    rw [follow_of_entry hl rfl] at hentry
    exact absurd hl hentry
  · rw [hpart] at henter
    cases henter
    have hparent := entry?_tail hl
    rw [follow_of_entry hparent rfl] at hentry
    exact absurd hparent hentry
  · exact ⟨h, hpart⟩

/-- Of two names in one directory, the second makes for a valid path if the first does, as long as that
path is short enough. -/
theorem pathFault?_join {dir : Path} {m n : Text} (hm : '/' ∉ m) (hn : '/' ∉ n) (hne : n ≠ [])
    (hnul : '\x00' ∉ n) (hlong : Text.byteLength (dir.join n) ≤ pathLimit)
    (h : pathFault? (dir.join m) = none) : pathFault? (dir.join n) = none := by
  obtain ⟨-, hclean, -⟩ := pathFault?_eq_none_iff.mp h
  rw [Path.join_eq hm, List.mem_append, not_or] at hclean
  refine pathFault?_eq_none_iff.mpr ⟨?_, ?_, hlong⟩
  · rw [Path.join_eq hn]
    exact List.append_ne_nil_of_right_ne_nil _ hne
  · rw [Path.join_eq hn, List.mem_append, not_or]
    exact ⟨hclean.1, hnul⟩

/-- The path of a name leads to what is found under that name in the place that the directory itself is. -/
theorem resolve_join {t : FileTree} {dir : Path} {name : Text} {k : Location} (h : Path.IsName name)
    (hk : t.resolve (dir.join name) = .ok k) :
    ∃ l, t.resolve (dir.join ['.']) = .ok l ∧ k = t.follow (name.utf8 :: l) := by
  obtain ⟨hfault, l, hholds, next, henter, rfl⟩ := (resolve_join_eq_ok_iff h.part).mp hk
  have hsame : t.follow l = l := follow_of_entry hholds.directory rfl
  refine ⟨l, (resolve_join_eq_ok_iff (by decide)).mpr ⟨?_, l, hholds, l, rfl, hsame⟩, ?_⟩
  · refine pathFault?_join h.part (by decide) (by decide) (by decide) ?_ hfault
    obtain ⟨-, -, hlength⟩ := pathFault?_eq_none_iff.mp hfault
    rw [Path.join_eq h.part, Text.byteLength_append] at hlength
    rw [Path.join_eq (by decide), Text.byteLength_append]
    -- a name takes up at least the one byte that the dot does
    have hname : 1 ≤ Text.byteLength name := by
      obtain ⟨c, rest, rfl⟩ := List.exists_cons_of_ne_nil h.ne_nil
      exact Nat.le_add_right_of_le (Char.utf8Size_pos c)
    have hdot : Text.byteLength ['.'] = 1 := rfl
    omega
  · rw [h.component] at henter
    rw [(enter_name_eq_ok_iff.mp henter).2]

end FileTree
end TemplateSplice
