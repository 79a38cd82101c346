import Mathlib.Data.List.Basic
import TemplateSplice.Generation
import TemplateSplice.Proofs.Listing
import TemplateSplice.Proofs.Locate

/-! What writing does to a tree. Nothing is taken away: where nothing was there may be a directory, on the
way along some path, and only the places that are written to change what they hold. So every path that
led somewhere leads there still, and what is not written to is read as before. Of the outputs that are
written to one place, the last one is there in the end. -/

namespace TemplateSplice

namespace FileTree

theorem entry?_put {t : FileTree} {name : Bytes} {parent : Location} {e : Entry}
    (hp : t.entry? parent = some .directory) (hn : t.entry? (name :: parent) ≠ some .directory)
    (he : e.isLink = false) (l : Location) :
    entry? (t.put name parent e hp hn he) l = if l = name :: parent then some e else t.entry? l := by
  apply Option.ext
  intro entry
  rw [entry?_eq_some_iff]
  show (l, entry) ∈ t.entries.filter (·.1 ≠ name :: parent) ++ [(name :: parent, e)] ↔ _
  by_cases hl : l = name :: parent
  · simp [hl, eq_comm]
  · simp [hl, entry?_eq_some_iff]

/-- `t'` is `t` with an entry put into one place. -/
structure Put (t t' : FileTree) (l : Location) (e : Entry) : Prop where
  cwd : t'.cwd = t.cwd
  hindrance : t'.hindrance = t.hindrance
  entry : ∀ k, t'.entry? k = if k = l then some e else t.entry? k

theorem Put.of_put {t : FileTree} {name : Bytes} {parent : Location} {e : Entry}
    (hp : t.entry? parent = some .directory) (hn : t.entry? (name :: parent) ≠ some .directory)
    (he : e.isLink = false) : Put t (t.put name parent e hp hn he) (name :: parent) e :=
  ⟨rfl, rfl, entry?_put hp hn he⟩

theorem put_of_makeDirectory {t t' : FileTree} {l : Location} (h : t.makeDirectory l = .ok t') :
    t.entry? l = none ∧ Put t t' l .directory := by
  unfold makeDirectory at h
  split at h
  · cases h
  · next hnone =>
    split at h
    · cases h
    · split at h
      · split at h
        · cases h
        · cases h
          exact ⟨hnone, .of_put _ _ rfl⟩
      · cases h
      · cases h

theorem put_of_place {t t' : FileTree} {l : Location} {e : Entry} {he : e.isLink = false}
    (h : t.place l e he = .ok t') : t.entry? l ≠ some .directory ∧ Put t t' l e := by
  unfold place at h
  split at h
  · cases h
  · split at h
    · split at h
      · cases h
      · next hother =>
        cases h
        exact ⟨hother, .of_put _ _ he⟩
    · cases h
    · cases h

def FilePlace (t : FileTree) (l : Location) : Prop :=
  ∀ e, t.entry? l = some e → ∃ content, e = .file content

theorem FilePlace.ne {t : FileTree} {l : Location} {e : Entry} (h : t.FilePlace l)
    (he : ∀ content, e ≠ .file content) : t.entry? l ≠ some e := by
  intro hl
  obtain ⟨content, rfl⟩ := h _ hl
  exact he content rfl

/-- What becomes of a place, with no link in it, that is written to: what it holds stays, or it comes to hold
a file. -/
theorem writeAt_cases {t t' : FileTree} {l : Location} {content : Bytes} {fault? : Option FileFault}
    (hl : ∀ k, t.entry? l ≠ some (.link k)) (h : t.writeAt l content = (t', fault?)) :
    (t' = t ∧ (fault? = none → t.entry? l = some .device)) ∨
      ∃ part, t.taken l content = .ok (part, fault?) ∧ t.FilePlace l ∧ Put t t' l (.file part) := by
  unfold writeAt at h
  split at h
  · cases h
    exact Or.inl ⟨rfl, by simp⟩
  · next part fault htaken =>
    split_ifs at h with hdevice
    · cases h
      exact Or.inl ⟨rfl, fun _ => hdevice⟩
    · split at h
      · cases h
        exact Or.inl ⟨rfl, by simp⟩
      · next hplace =>
        cases h
        obtain ⟨hdirectory, hput⟩ := put_of_place hplace
        refine Or.inr ⟨part, htaken, fun e he => ?_, hput⟩
        cases e with
        | file found => exact ⟨found, rfl⟩
        | directory => exact absurd he hdirectory
        | device => exact absurd he hdevice
        | link k => exact absurd he (hl k)

theorem eq_of_taken {t : FileTree} {l : Location} {content part : Bytes}
    (h : t.taken l content = .ok (part, none)) : part = content := by
  unfold taken at h
  split at h
  · cases h; rfl
  · cases h
  · split_ifs at h
    · cases h; rfl
    · cases h

theorem put_of_writeAt {t t' : FileTree} {l : Location} {content : Bytes}
    (hl : ∀ k, t.entry? l ≠ some (.link k)) (h : t.writeAt l content = (t', none)) :
    (t' = t ∧ t.entry? l = some .device) ∨ (t.FilePlace l ∧ Put t t' l (.file content)) := by
  rcases writeAt_cases hl h with ⟨rfl, hdevice⟩ | ⟨part, htaken, hplace, hput⟩
  · exact Or.inl ⟨rfl, hdevice rfl⟩
  · exact Or.inr ⟨hplace, eq_of_taken htaken ▸ hput⟩

/-- A tree after some writing, and the places that were written to. -/
structure Grown (written : List Location) (t t' : FileTree) : Prop where
  cwd : t'.cwd = t.cwd
  entry : ∀ l, t'.entry? l = t.entry? l ∨
    (t.entry? l = none ∧ t'.entry? l = some .directory) ∨
    (l ∈ written ∧ t.FilePlace l ∧ ∃ content, t'.entry? l = some (.file content))

namespace Grown

variable {written first second : List Location} {t t' t'' : FileTree}

theorem refl (written : List Location) (t : FileTree) : Grown written t t :=
  ⟨rfl, fun _ => Or.inl rfl⟩

theorem trans (h : Grown first t t') (h' : Grown second t' t'') :
    Grown (first ++ second) t t'' := by
  refine ⟨h'.cwd.trans h.cwd, fun l => ?_⟩
  rcases h'.entry l with hsame' | ⟨hnone', hmade'⟩ | ⟨hl', hplace', content, hwritten'⟩
  · rw [hsame']
    rcases h.entry l with hsame | hmade | ⟨hl, hwritten⟩
    · exact Or.inl hsame
    · exact Or.inr (Or.inl hmade)
    · exact Or.inr (Or.inr ⟨List.mem_append_left _ hl, hwritten⟩)
  · -- nothing is here after the first writing, so nothing was here before it
    rcases h.entry l with hsame | ⟨-, hmade⟩ | ⟨-, -, content, hwritten⟩
    · exact Or.inr (Or.inl ⟨hsame ▸ hnone', hmade'⟩)
    · rw [hmade] at hnone'; cases hnone'
    · rw [hwritten] at hnone'; cases hnone'
  · refine Or.inr (Or.inr ⟨List.mem_append_right _ hl', ?_, content, hwritten'⟩)
    rcases h.entry l with hsame | ⟨-, hmade⟩ | ⟨-, hplace, -⟩
    · exact fun e he => hplace' e (hsame.trans he)
    · exact absurd hmade (hplace'.ne (by simp))
    · exact hplace

theorem stays (h : Grown written t t') {l : Location} {e : Entry} (hl : t.entry? l = some e)
    (he : ∀ content, e ≠ .file content) : t'.entry? l = some e := by
  rcases h.entry l with hsame | ⟨hnone, -⟩ | ⟨-, hplace, -⟩
  · rw [hsame, hl]
  · rw [hnone] at hl; cases hl
  · exact absurd hl (hplace.ne he)

theorem directory (h : Grown written t t') {l : Location} (hl : t.entry? l = some .directory) :
    t'.entry? l = some .directory :=
  h.stays hl (by simp)

theorem kept (h : Grown written t t') {l : Location} {e : Entry} (hl : l ∉ written)
    (he : t.entry? l = some e) : t'.entry? l = some e := by
  rcases h.entry l with hsame | ⟨hnone, -⟩ | ⟨hwritten, -⟩
  · rw [hsame, he]
  · rw [hnone] at he; cases he
  · exact absurd hwritten hl

theorem file_of_file (h : Grown written t t') {l : Location} {content : Bytes} (hl : l ∉ written)
    (he : t'.entry? l = some (.file content)) : t.entry? l = some (.file content) := by
  rcases h.entry l with hsame | ⟨-, hmade⟩ | ⟨hwritten, -⟩
  · rw [← hsame, he]
  · rw [hmade] at he; cases he
  · exact absurd hwritten hl

theorem link_iff (h : Grown written t t') {l k : Location} :
    t'.entry? l = some (.link k) ↔ t.entry? l = some (.link k) := by
  constructor
  · intro hlink
    rcases h.entry l with hsame | ⟨-, hmade⟩ | ⟨-, -, content, hwritten⟩
    · rw [← hsame, hlink]
    · rw [hmade] at hlink; cases hlink
    · rw [hwritten] at hlink; cases hlink
  · exact fun hlink => h.stays hlink (by simp)

theorem follow (h : Grown written t t') (l : Location) : t'.follow l = t.follow l := by
  rcases t.follow_cases l with hlink | ⟨hother, hsame⟩
  · rw [FileTree.follow, h.link_iff.mpr hlink]
  · rcases t'.follow_cases l with hlink' | ⟨-, hsame'⟩
    · exact absurd (h.link_iff.mp hlink') (hother _)
    · rw [hsame, hsame']

theorem unlinked_iff (h : Grown written t t') {l : Location} : t'.Unlinked l ↔ t.Unlinked l := by
  constructor
  · rintro hl ⟨k, e⟩ hentry rfl
    exact hl _ (entry?_eq_some_iff.mp (h.link_iff.mpr (entry?_eq_some_iff.mpr hentry))) rfl
  · rintro hl ⟨k, e⟩ hentry rfl
    exact hl _ (entry?_eq_some_iff.mp (h.link_iff.mp (entry?_eq_some_iff.mpr hentry))) rfl

theorem walk (h : Grown written t t') {l k : Location} {components : List Path.Component}
    (hk : t.walk l components = .ok k) : t'.walk l components = .ok k := by
  induction components generalizing l with
  | nil => exact hk
  | cons c rest ih =>
    by_cases hc : c = .root
    · subst hc
      exact ih hk
    · obtain ⟨hl, next, henter, hnext⟩ := (walk_cons_eq_ok_iff hc).mp hk
      refine (walk_cons_eq_ok_iff hc).mpr ⟨?_, next, ?_, ih hnext⟩
      · rw [h.follow]
        exact h.directory hl
      · rw [h.follow, henter]

theorem locate (h : Grown written t t') {p : Path} {l : Location} (hl : t.locate p = .ok l) :
    t'.locate p = .ok l := by
  obtain ⟨hfault, hwalk⟩ := locate_eq_ok_iff.mp hl
  refine locate_eq_ok_iff.mpr ⟨hfault, ?_⟩
  rw [h.cwd]
  exact h.walk hwalk

theorem resolve (h : Grown written t t') {p : Path} {l : Location} (hl : t.resolve p = .ok l) :
    t'.resolve p = .ok l := by
  obtain ⟨k, hk, rfl⟩ := resolve_eq_ok_iff.mp hl
  exact resolve_eq_ok_iff.mpr ⟨k, h.locate hk, h.follow k⟩

theorem makeDirectory {l : Location} (h : t.makeDirectory l = .ok t') : Grown [] t t' := by
  obtain ⟨hnone, hput⟩ := put_of_makeDirectory h
  refine ⟨hput.cwd, fun k => ?_⟩
  rw [hput.entry]
  split_ifs with hk
  · exact Or.inr (Or.inl ⟨hk ▸ hnone, rfl⟩)
  · exact Or.inl rfl

theorem of_put {l : Location} {content : Bytes} (hl : t.FilePlace l) (h : Put t t' l (.file content)) :
    Grown [l] t t' := by
  refine ⟨h.cwd, fun k => ?_⟩
  rw [h.entry]
  split_ifs with hk
  · exact Or.inr (Or.inr ⟨by simp [hk], hk ▸ hl, content, rfl⟩)
  · exact Or.inl rfl

/-- A file that is written lands where its path leads, unless it is lost there. -/
theorem writeAt {l : Location} {content : Bytes} (hl : ∀ k, t.entry? l ≠ some (.link k))
    (h : t.writeAt l content = (t', none)) :
    Grown [l] t t' ∧ (t'.entry? l = some (.file content) ∨ t'.entry? l = some .device) := by
  rcases put_of_writeAt hl h with ⟨rfl, hdevice⟩ | ⟨hplace, hput⟩
  · exact ⟨refl [l] t', Or.inr hdevice⟩
  · exact ⟨of_put hplace hput, Or.inl (by rw [hput.entry, if_pos rfl])⟩

end Grown

theorem ne_link_of_resolve {t : FileTree} {p : Path} {l : Location} (h : t.resolve p = .ok l)
    (k : Location) : t.entry? l ≠ some (.link k) := by
  obtain ⟨before, -, rfl⟩ := resolve_eq_ok_iff.mp h
  intro hlink
  cases isLink_of_follow hlink

/-- A tree after some writing, in which directories were made only where the paths lead. -/
structure GrownAlong (paths : List Path) (written : List Location) (t t' : FileTree) : Prop where
  grown : Grown written t t'
  hindrance : t'.hindrance = t.hindrance
  made : ∀ l, t.entry? l = none → t'.entry? l = some .directory →
    ∃ p ∈ paths, t'.resolve p = .ok l

namespace GrownAlong

variable {paths : List Path} {first second : List Location} {t t' t'' : FileTree}

theorem refl (paths : List Path) (written : List Location) (t : FileTree) :
    GrownAlong paths written t t := by
  refine ⟨Grown.refl written t, rfl, fun l hnone hmade => ?_⟩
  rw [hnone] at hmade; cases hmade

theorem trans (h : GrownAlong paths first t t') (h' : GrownAlong paths second t' t'') :
    GrownAlong paths (first ++ second) t t'' := by
  refine ⟨h.grown.trans h'.grown, h'.hindrance.trans h.hindrance, fun l hnone hmade => ?_⟩
  cases hbetween : t'.entry? l with
  | none => exact h'.made l hbetween hmade
  | some e =>
    -- what is a directory in the end was one as soon as it was there
    obtain rfl : e = .directory := by
      rcases h'.grown.entry l with hsame | ⟨hnone', -⟩ | ⟨-, -, content, hfile⟩
      · rw [hsame, hbetween] at hmade
        exact Option.some.inj hmade
      · rw [hbetween] at hnone'; cases hnone'
      · rw [hmade] at hfile; cases hfile
    obtain ⟨p, hp, hl⟩ := h.made l hnone hbetween
    exact ⟨p, hp, h'.grown.resolve hl⟩

theorem makeDirectoryAt {p : Path} (hp : p ∈ paths) (h : t.makeDirectoryAt p = .ok t') :
    GrownAlong paths [] t t' := by
  obtain ⟨l, hl, h⟩ := bind_eq_ok.mp h
  obtain ⟨hnone, hput⟩ := put_of_makeDirectory h
  have hgrown : Grown [] t t' := Grown.makeDirectory h
  refine ⟨hgrown, hput.hindrance, fun k hk hmade => ?_⟩
  rw [hput.entry] at hmade
  split_ifs at hmade with heq
  · exact ⟨p, hp, heq ▸ hgrown.resolve (resolve_eq_ok_iff.mpr ⟨l, hl, follow_of_none hnone⟩)⟩
  · rw [hk] at hmade; cases hmade

theorem ensureDirectory {p : Path} (hp : p ∈ paths) (t : FileTree) :
    GrownAlong paths [] t (t.ensureDirectory p).1 := by
  unfold FileTree.ensureDirectory
  split
  · next t' h => exact makeDirectoryAt hp h
  · exact refl paths [] t

theorem makeDirectories {ps : List Path} (hps : ∀ p ∈ ps, p ∈ paths) (t : FileTree) :
    GrownAlong paths [] t (t.makeDirectories ps).1 := by
  induction ps with
  | nil => exact refl paths [] t
  | cons p outer ih =>
    obtain ⟨hp, houter⟩ := List.forall_mem_cons.mp hps
    unfold FileTree.makeDirectories
    split
    · -- what is above `p` is made first
      have habove := ih houter
      split
      · next t' h =>
        rw [h] at habove
        exact habove.trans (ensureDirectory hp t')
      · exact habove
    · exact ensureDirectory hp t

theorem of_put {l : Location} {content : Bytes} (hl : t.FilePlace l) (h : Put t t' l (.file content)) :
    GrownAlong paths [l] t t' := by
  refine ⟨Grown.of_put hl h, h.hindrance, fun k hnone hmade => ?_⟩
  rw [h.entry] at hmade
  split_ifs at hmade
  · cases hmade
  · rw [hnone] at hmade; cases hmade

theorem writeAt {l : Location} {content : Bytes} (hl : ∀ k, t.entry? l ≠ some (.link k))
    (h : t.writeAt l content = (t', none)) : GrownAlong paths [l] t t' := by
  rcases put_of_writeAt hl h with ⟨rfl, -⟩ | ⟨hplace, hput⟩
  · exact refl paths [l] t'
  · exact of_put hplace hput

end GrownAlong

theorem write_eq_none {t t' : FileTree} {p : Path} {content : Bytes}
    (h : t.write p content = (t', none)) :
    ∃ l, t.resolve p = .ok l ∧ t.writeAt l content = (t', none) := by
  unfold write at h
  split at h
  · cases h
  · next l hl => exact ⟨l, hl, h⟩

end FileTree

namespace Generation

open FileTree

variable {paths : List Path} {t t' : FileTree}

/-- An output stands in the place that its path leads to, or is lost on a device there. -/
structure Landed (t : FileTree) (o : Output) (l : Location) : Prop where
  resolve : t.resolve o.path = .ok l
  entry : t.entry? l = some (.file o.content.utf8) ∨ t.entry? l = some .device

theorem Landed.grown {written : List Location} (hg : Grown written t t') {o : Output} {l : Location}
    (h : Landed t o l) (hl : l ∉ written) : Landed t' o l :=
  ⟨hg.resolve h.resolve, h.entry.imp (hg.kept hl) (hg.kept hl)⟩

/-- Outputs that were written one after the other, and the places that they were written to. Each of them
stands where it was written to, unless a later one was written over it. -/
inductive Settled (t : FileTree) : List Output → List Location → Prop
  | nil : Settled t [] []
  | cons {o : Output} {l : Location} {outputs : List Output} {written : List Location}
      (resolve : t.resolve o.path = .ok l) (landed : l ∉ written → Landed t o l)
      (rest : Settled t outputs written) : Settled t (o :: outputs) (l :: written)

namespace Settled

variable {outputs : List Output} {written : List Location}

theorem length_eq (h : Settled t outputs written) : outputs.length = written.length := by
  induction h with
  | nil => rfl
  | cons _ _ _ ih => rw [List.length_cons, List.length_cons, ih]

theorem exists_landed (h : Settled t outputs written) {l : Location} (hl : l ∈ written) :
    ∃ o ∈ outputs, Landed t o l := by
  induction h with
  | nil => cases hl
  | @cons o k outputs written hresolve hlanded hrest ih =>
    by_cases hlater : l ∈ written
    · obtain ⟨o', ho', hl'⟩ := ih hlater
      exact ⟨o', List.mem_cons_of_mem o ho', hl'⟩
    · obtain rfl : l = k := by simpa [hlater] using hl
      exact ⟨o, List.mem_cons_self, hlanded hlater⟩

end Settled

theorem landed_of_writeOutput {o : Output} (hpaths : ∀ p ∈ o.path.ancestors, p ∈ paths)
    (h : writeOutput t o = (t', none)) : ∃ l, GrownAlong paths [l] t t' ∧ Landed t' o l := by
  unfold writeOutput at h
  split at h
  · cases h
  · next made hmade =>
    have halong : GrownAlong paths [] t made := by
      have := GrownAlong.makeDirectories hpaths t
      rwa [hmade] at this
    split at h
    next after fault? hwrite =>
    obtain ⟨rfl, hfault⟩ := Prod.mk.inj h
    rw [Option.map_eq_none_iff.mp hfault] at hwrite
    obtain ⟨l, hl, hwrite⟩ := write_eq_none hwrite
    obtain ⟨hgrown, hentry⟩ := Grown.writeAt (ne_link_of_resolve hl) hwrite
    exact ⟨l, halong.trans (GrownAlong.writeAt (ne_link_of_resolve hl) hwrite), hgrown.resolve hl, hentry⟩

theorem settled_of_writeOutputs {outputs : List Output}
    (hpaths : ∀ o ∈ outputs, ∀ p ∈ o.path.ancestors, p ∈ paths)
    (h : writeOutputs t outputs = (t', none)) :
    ∃ written, GrownAlong paths written t t' ∧ Settled t' outputs written := by
  induction outputs generalizing t with
  | nil =>
    cases h
    exact ⟨[], GrownAlong.refl paths [] t', .nil⟩
  | cons o rest ih =>
    obtain ⟨ho, hothers⟩ := List.forall_mem_cons.mp hpaths
    unfold writeOutputs at h
    split at h
    · cases h
    · next next hnext =>
      obtain ⟨l, halong, hl⟩ := landed_of_writeOutput ho hnext
      obtain ⟨written, hrest, hsettled⟩ := ih hothers h
      exact ⟨l :: written, halong.trans hrest,
        .cons (hrest.grown.resolve hl.resolve) (hl.grown hrest.grown) hsettled⟩

variable {g : Generation}

def LinksApart (t : FileTree) (g : Generation) : Prop :=
  ∀ o ∈ g.outputs, ∀ l, t.resolve o.path = .ok l → t.Unlinked l

/-- A generation is written to two places, that of the manifest and that of the config. -/
theorem settled_of_write (h : g.write t = (t', none)) :
    ∃ l l', GrownAlong (g.outputs.flatMap (·.path.ancestors)) [l, l'] t t' ∧
      Settled t' g.outputs [l, l'] := by
  obtain ⟨written, halong, hsettled⟩ :=
    settled_of_writeOutputs (fun o ho _ hp => List.mem_flatMap.mpr ⟨o, ho, hp⟩) h
  obtain ⟨l, l', rfl⟩ := List.length_eq_two.mp hsettled.length_eq.symm
  exact ⟨l, l', halong, hsettled⟩

/-- The config stands where it was written to, and so does the manifest unless the config is there. -/
theorem landed_of_settled {l l' : Location} (h : Settled t g.outputs [l, l']) :
    Landed t g.config l' ∧ t.resolve g.manifest.path = .ok l ∧ (l ≠ l' → Landed t g.manifest l) := by
  cases h with
  | cons hresolve hlanded hrest =>
    cases hrest with
    | cons hresolve' hlanded' _ =>
      exact ⟨hlanded' List.not_mem_nil, hresolve, fun hne => hlanded (by simpa using hne)⟩

end Generation
end TemplateSplice
