import Mathlib.Data.List.Nodup
import TemplateSplice.FileTree
import TemplateSplice.Settings

/-! Overrides laid over the builtin catalog. A name stands for a tag if it is the tag's own, with the sigil
or without it. Of the entries for one tag a single one holds, and which one depends on the order in which
they are gone through; as long as no tag is named twice, a catalog follows from which entries there are,
whatever their order. Where payloads go is not part of a wording, so that no entry can change it. -/

namespace TemplateSplice

namespace Tag

variable {name : Text} {tag : Tag}

theorem ofName?_eq_some_iff : ofName? name = some tag ↔ name = tag.name ∨ name = tag.token := by
  constructor
  · intro h
    have hbare := List.find?_some h
    split at hbare
    · exact Or.inr (congrArg ('%' :: ·) (of_decide_eq_true hbare).symm)
    · exact Or.inl (of_decide_eq_true hbare).symm
  · rintro (rfl | rfl)
    · exact ofName?_name tag
    · exact ofName?_token tag

theorem ofName?_eq_none_iff : ofName? name = none ↔ ∀ tag : Tag, name ≠ tag.name ∧ name ≠ tag.token := by
  simp only [Option.eq_none_iff_forall_ne_some, ne_eq, ofName?_eq_some_iff, not_or]

end Tag

/-- No two entries are for one tag. -/
def Override.Apart (entries : List (Text × Override)) : Prop :=
  entries.Pairwise fun e e' => ∀ tag, Tag.ofName? e.1 = some tag → Tag.ofName? e'.1 ≠ some tag

theorem Override.Apart.perm {entries entries' : List (Text × Override)} (h : Override.Apart entries)
    (hperm : entries'.Perm entries) : Override.Apart entries' :=
  hperm.symm.pairwise h fun hne tag htag htag' => hne tag htag' htag

structure Rule.Overlaid (o : Override) (before after : Rule) : Prop where
  tag : after.tag = before.tag
  target : after.target = before.target
  placement : after.placement = before.placement
  marker : after.marker = o.marker.getD before.marker
  indent : after.indent = o.indent.getD before.indent
  passivePrefix : after.passivePrefix = o.passivePrefix.getD before.passivePrefix
  activePrefix : after.activePrefix = o.activePrefix.getD before.activePrefix

namespace Catalog

section
variable {overrides overrides' : List (Tag × Override)} {tag : Tag} {o : Override}

theorem mem_of_lookup_reverse (h : overrides.reverse.lookup tag = some o) : (tag, o) ∈ overrides := by
  obtain ⟨later, earlier, hsplit, -⟩ := List.lookup_eq_some_iff.mp h
  rw [← List.mem_reverse, hsplit]
  simp

theorem withOverrides_perm (hapart : overrides.Pairwise (·.1 ≠ ·.1)) (h : overrides'.Perm overrides) :
    withOverrides overrides' = withOverrides overrides := by
  have hnodup : (overrides.reverse.map (·.1)).Nodup := by
    rw [List.map_reverse, List.nodup_reverse]
    exact List.pairwise_map.mpr hapart
  have hreverse : overrides'.reverse.Perm overrides.reverse :=
    ((List.reverse_perm _).trans h).trans (List.reverse_perm _).symm
  have hnodup' : (overrides'.reverse.map (·.1)).Nodup := (hreverse.map _).nodup_iff.mpr hnodup
  refine congrArg mk (funext fun tag => ?_)
  have hlookup : overrides'.reverse.lookup tag = overrides.reverse.lookup tag := by
    refine Option.ext fun o => ?_
    rw [FileTree.lookup_eq_some_iff_mem hnodup', FileTree.lookup_eq_some_iff_mem hnodup, hreverse.mem_iff]
  simp only [hlookup]

end

section
variable {entries entries' : List (Text × Override)} {c : Catalog} {tag : Tag}

def resolve (entry : Text × Override) : Except Fault (Tag × Override) :=
  match Tag.ofName? entry.1 with
  | some tag => .ok (tag, entry.2)
  | none => .error (.unknownTag entry.1)

def known (entries : List (Text × Override)) : List (Tag × Override) :=
  entries.filterMap fun entry => (Tag.ofName? entry.1).map (·, entry.2)

theorem mem_known {o : Override} :
    (tag, o) ∈ known entries ↔ ∃ name, (name, o) ∈ entries ∧ Tag.ofName? name = some tag := by
  rw [known, List.mem_filterMap]
  constructor
  · rintro ⟨⟨name, o'⟩, hentry, h⟩
    obtain ⟨tag', htag, heq⟩ := Option.map_eq_some_iff.mp h
    cases heq
    exact ⟨name, hentry, htag⟩
  · rintro ⟨name, hentry, htag⟩
    exact ⟨_, hentry, by rw [htag]; rfl⟩

theorem known_pairwise (h : Override.Apart entries) : (known entries).Pairwise (·.1 ≠ ·.1) := by
  rw [known, List.pairwise_filterMap]
  refine h.imp ?_
  intro e e' hne entry hentry entry' hentry' heq
  obtain ⟨tag, htag, rfl⟩ := Option.map_eq_some_iff.mp hentry
  obtain ⟨tag', htag', rfl⟩ := Option.map_eq_some_iff.mp hentry'
  obtain rfl : tag = tag' := heq
  exact hne tag htag htag'

theorem mapM_resolve_of_known (h : ∀ entry ∈ entries, Tag.ofName? entry.1 ≠ none) :
    entries.mapM resolve = .ok (known entries) := by
  induction entries with
  | nil => rfl
  | cons entry rest ih =>
    obtain ⟨hentry, hrest⟩ := List.forall_mem_cons.mp h
    obtain ⟨tag, htag⟩ := Option.ne_none_iff_exists'.mp hentry
    have hcons : known (entry :: rest) = (tag, entry.2) :: known rest := by simp [known, htag]
    rw [List.mapM_cons, ih hrest, hcons, resolve, htag]
    rfl

/-- Where there is a name that is not known, such a name is reported. -/
theorem mapM_resolve_of_unknown (h : ∃ entry ∈ entries, Tag.ofName? entry.1 = none) :
    ∃ entry ∈ entries, Tag.ofName? entry.1 = none ∧
      entries.mapM resolve = .error (.unknownTag entry.1) := by
  induction entries with
  | nil => simp at h
  | cons entry rest ih =>
    rw [List.mapM_cons, resolve]
    cases htag : Tag.ofName? entry.1 with
    | none => exact ⟨entry, List.mem_cons_self, htag, rfl⟩
    | some tag =>
      have hrest : ∃ entry ∈ rest, Tag.ofName? entry.1 = none := by
        simpa [htag] using h
      obtain ⟨other, hother, hnone, hfault⟩ := ih hrest
      exact ⟨other, List.mem_cons_of_mem _ hother, hnone, by rw [hfault]; rfl⟩

theorem ofNamed_of_known (h : ∀ entry ∈ entries, Tag.ofName? entry.1 ≠ none) :
    ofNamed entries = .ok (withOverrides (known entries)) := by
  show (entries.mapM resolve >>= fun overrides => pure (withOverrides overrides)) = _
  rw [mapM_resolve_of_known h]
  rfl

theorem ofNamed_of_unknown (h : ∃ entry ∈ entries, Tag.ofName? entry.1 = none) :
    ∃ entry ∈ entries, Tag.ofName? entry.1 = none ∧ ofNamed entries = .error (.unknownTag entry.1) := by
  obtain ⟨entry, hentry, hnone, hfault⟩ := mapM_resolve_of_unknown h
  refine ⟨entry, hentry, hnone, ?_⟩
  show (entries.mapM resolve >>= fun overrides => pure (withOverrides overrides)) = _
  rw [hfault]
  rfl

theorem ofNamed_eq_ok_iff : ofNamed entries = .ok c ↔
    (∀ entry ∈ entries, Tag.ofName? entry.1 ≠ none) ∧ c = withOverrides (known entries) := by
  by_cases h : ∀ entry ∈ entries, Tag.ofName? entry.1 ≠ none
  · rw [ofNamed_of_known h, and_iff_right h, Except.ok.injEq, eq_comm]
  · obtain ⟨entry, -, -, hfault⟩ := ofNamed_of_unknown (by simpa using h)
    rw [hfault]
    exact ⟨fun hok => (by cases hok), fun hok => absurd hok.1 h⟩

theorem ofNamed_perm (hapart : Override.Apart entries) (h : entries'.Perm entries)
    (hc : ofNamed entries = .ok c) : ofNamed entries' = .ok c := by
  obtain ⟨hknown, rfl⟩ := ofNamed_eq_ok_iff.mp hc
  rw [← withOverrides_perm (known_pairwise hapart) (h.filterMap _)]
  exact ofNamed_of_known fun entry hentry => hknown entry (h.mem_iff.mp hentry)

theorem rule_of_wording {o : Override} (h : c.wording tag = o.apply (builtin.wording tag)) :
    Rule.Overlaid o (builtin.rule tag) (c.rule tag) := by
  refine ⟨rfl, rfl, rfl, ?_, ?_, ?_, ?_⟩ <;> simp [rule, h, Override.apply]

/-- Of the entries for a tag one holds, and without any the rule is the builtin one. -/
theorem rule_of_ofNamed (hc : ofNamed entries = .ok c) (tag : Tag) :
    (∃ entry ∈ entries, Tag.ofName? entry.1 = some tag ∧
        Rule.Overlaid entry.2 (builtin.rule tag) (c.rule tag)) ∨
      ((∀ entry ∈ entries, Tag.ofName? entry.1 ≠ some tag) ∧ c.rule tag = builtin.rule tag) := by
  obtain ⟨-, rfl⟩ := ofNamed_eq_ok_iff.mp hc
  cases hlookup : (known entries).reverse.lookup tag with
  | some o =>
    obtain ⟨name, hentry, htag⟩ := mem_known.mp (mem_of_lookup_reverse hlookup)
    refine Or.inl ⟨_, hentry, htag, rule_of_wording ?_⟩
    simp only [withOverrides, hlookup]
    rfl
  | none =>
    refine Or.inr ⟨fun entry hentry htag => ?_, ?_⟩
    · have hmem := List.mem_reverse.mpr (mem_known.mpr ⟨entry.1, hentry, htag⟩)
      simpa using List.lookup_eq_none_iff.mp hlookup _ hmem
    · simp only [rule, withOverrides, hlookup]
      rfl

end

/-! Where payloads go, and the two ways to a rule. -/

theorem target_eq_manifest_iff (c : Catalog) (tag : Tag) :
    (c.rule tag).target = .manifest ↔ tag = .buildDependency := by
  show tag.target = .manifest ↔ _
  cases tag <;> decide

theorem placement_eq_fieldAppend_iff (c : Catalog) (tag : Tag) :
    (c.rule tag).placement = .fieldAppend ↔ tag = .buildDependency := by
  show tag.placement = .fieldAppend ↔ _
  cases tag <;> decide

theorem map_tag_rules (c : Catalog) : c.rules.map (·.tag) = Tag.all := by
  rw [rules, List.map_map]
  exact List.map_id _

theorem getElem?_rules (c : Catalog) (i : Nat) : c.rules[i]? = Tag.all[i]?.map c.rule :=
  List.getElem?_map

theorem ruleNamed_eq_ok (c : Catalog) {name : Text} {tag : Tag} (h : name = tag.name ∨ name = tag.token) :
    c.ruleNamed name = .ok (c.rule tag) := by
  rw [ruleNamed, Tag.ofName?_eq_some_iff.mpr h]

end Catalog

/-- The catalog that settings come to, in whatever order their entries are gone through. There is none
exactly when a name, with the sigil or without it, is not that of a tag, and such a name is what is reported.
If there is one, its rules are one for each tag, in their order, found by position as they are by tag and by
name; each goes where the builtin one does, so that only dependencies are for the manifest and added to a
field; and each is the builtin one with the parts that an entry for its tag has in place of its own, or the
builtin one itself if there is no such entry. If no tag is named twice, the entries may be written and gone
through in any other order. -/
theorem catalog_of_settings (s : Settings) (order : TableOrder) :
    ((∃ fault, s.catalog order = .error fault) ↔
      ∃ entry ∈ s.tags, ∀ tag : Tag, entry.1 ≠ tag.name ∧ entry.1 ≠ tag.token) ∧
    (∀ fault, s.catalog order = .error fault →
      ∃ entry ∈ s.tags, (∀ tag : Tag, entry.1 ≠ tag.name ∧ entry.1 ≠ tag.token) ∧
        fault = .unknownTag entry.1) ∧
    ∀ c, s.catalog order = .ok c →
      c.rules.map (·.tag) = Tag.all ∧
      (∀ (i : Nat) (tag : Tag), Tag.all[i]? = some tag → c.rules[i]? = some (c.rule tag)) ∧
      (∀ (name : Text) (tag : Tag), name = tag.name ∨ name = tag.token →
        c.ruleNamed name = .ok (c.rule tag)) ∧
      (∀ tag : Tag,
        (c.rule tag).target = (Catalog.builtin.rule tag).target ∧
        (c.rule tag).placement = (Catalog.builtin.rule tag).placement ∧
        ((c.rule tag).target = .manifest ↔ tag = .buildDependency) ∧
        ((c.rule tag).placement = .fieldAppend ↔ tag = .buildDependency)) ∧
      (∀ tag : Tag,
        (∃ entry ∈ s.tags, (entry.1 = tag.name ∨ entry.1 = tag.token) ∧
          Rule.Overlaid entry.2 (Catalog.builtin.rule tag) (c.rule tag)) ∨
        ((∀ entry ∈ s.tags, entry.1 ≠ tag.name ∧ entry.1 ≠ tag.token) ∧
          c.rule tag = Catalog.builtin.rule tag)) ∧
      (Override.Apart s.tags →
        ∀ (other : TableOrder) (tags : List (Text × Override)), tags.Perm s.tags →
          { s with tags }.catalog other = .ok c) := by
  have hmem : ∀ entry, entry ∈ order.arrange s.tags ↔ entry ∈ s.tags :=
    fun _ => (order.perm s.tags).mem_iff
  have hfault : ∀ fault, s.catalog order = .error fault → ∃ entry ∈ s.tags,
      (∀ tag : Tag, entry.1 ≠ tag.name ∧ entry.1 ≠ tag.token) ∧ fault = .unknownTag entry.1 := by
    intro fault h
    have hunknown : ∃ entry ∈ order.arrange s.tags, Tag.ofName? entry.1 = none := by
      by_contra hall
      rw [Settings.catalog, Catalog.ofNamed_of_known (by simpa using hall)] at h
      cases h
    obtain ⟨entry, hentry, hnone, heq⟩ := Catalog.ofNamed_of_unknown hunknown
    exact ⟨entry, (hmem entry).mp hentry, Tag.ofName?_eq_none_iff.mp hnone,
      Except.error.inj (h.symm.trans heq)⟩
  refine ⟨⟨?_, ?_⟩, hfault, fun c hc => ⟨c.map_tag_rules, ?_, fun _ _ => c.ruleNamed_eq_ok, ?_, ?_, ?_⟩⟩
  · rintro ⟨fault, h⟩
    obtain ⟨entry, hentry, hunknown, -⟩ := hfault fault h
    exact ⟨entry, hentry, hunknown⟩
  · rintro ⟨entry, hentry, hunknown⟩
    obtain ⟨other, -, -, h⟩ := Catalog.ofNamed_of_unknown
      ⟨entry, (hmem entry).mpr hentry, Tag.ofName?_eq_none_iff.mpr hunknown⟩
    exact ⟨_, h⟩
  · intro i tag htag
    rw [c.getElem?_rules, htag, Option.map_some]
  · exact fun tag => ⟨rfl, rfl, c.target_eq_manifest_iff tag, c.placement_eq_fieldAppend_iff tag⟩
  · intro tag
    rcases Catalog.rule_of_ofNamed hc tag with ⟨entry, hentry, htag, hrow⟩ | ⟨hnone, hrow⟩
    · exact Or.inl ⟨entry, (hmem entry).mp hentry, Tag.ofName?_eq_some_iff.mp htag, hrow⟩
    · refine Or.inr ⟨fun entry hentry => ?_, hrow⟩
      rw [← not_or, ← Tag.ofName?_eq_some_iff]
      exact hnone entry ((hmem entry).mpr hentry)
  · intro hapart other tags htags
    have hperm : (other.arrange tags).Perm (order.arrange s.tags) :=
      ((other.perm tags).trans htags).trans (order.perm s.tags).symm
    exact Catalog.ofNamed_perm (hapart.perm (order.perm s.tags)) hperm hc

/-! One tag named without its sigil and one with it. -/

def overlaySettings : Settings where
  tags := [("keybind".toList, { indent := some "  ".toList }), ("%def".toList, { marker := some [] })]

def TableOrder.reversed : TableOrder :=
  ⟨List.reverse, List.reverse_perm⟩

theorem catalog_of_two_entries :
    Override.Apart overlaySettings.tags ∧
    ∃ c, overlaySettings.catalog .asWritten = .ok c ∧ overlaySettings.catalog .reversed = .ok c ∧
      (c.rule .keyBinding).indent = "  ".toList ∧
      c.rule .layout = Catalog.builtin.rule .layout := by
  have hapart : Override.Apart overlaySettings.tags := by
    refine List.pairwise_pair.mpr fun tag htag => ?_
    obtain rfl : Tag.keyBinding = tag := Option.some.inj htag
    decide
  obtain ⟨c, hc⟩ : ∃ c, overlaySettings.catalog .asWritten = .ok c := ⟨_, rfl⟩
  obtain ⟨-, -, -, -, hrows, horder⟩ := (catalog_of_settings overlaySettings .asWritten).2.2 c hc
  refine ⟨hapart, c, hc, horder hapart .reversed _ (.refl _), ?_, ?_⟩
  · rcases hrows .keyBinding with ⟨entry, hentry, hname, hrow⟩ | ⟨hnone, -⟩
    · rcases List.mem_pair.mp hentry with rfl | rfl
      · exact hrow.indent
      · exact absurd hname (by decide)
    · exact absurd rfl (hnone _ List.mem_cons_self).1
  · rcases hrows .layout with ⟨entry, hentry, hname, -⟩ | ⟨-, hrow⟩
    · rcases List.mem_pair.mp hentry with rfl | rfl
      · exact absurd hname (by decide)
      · exact absurd hname (by decide)
    · exact hrow

end TemplateSplice
