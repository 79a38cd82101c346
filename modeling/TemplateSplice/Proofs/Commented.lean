import TemplateSplice.Proofs.Generated
import TemplateSplice.Proofs.Origin
import TemplateSplice.Proofs.Steering
import TemplateSplice.Proofs.TaggedLine

/-! What a passive run adds to a config. A heading begins with the comment mark of the settings, and a
payload with the prefix of its rule; the two are set apart from each other, and the builtin prefixes are
made for `--`. So all that is added is commented out where the mark is `--`, or begins it. A heading
also shows the name of a file, and stays on one line only if the name does. -/

namespace TemplateSplice

namespace Text

theorem prefix_trimStart_indented {indent t : Text} (hi : trimStart indent = [])
    (ht : ∀ c ∈ t.head?, isBlank c = false) (rest : Text) :
    t <+: trimStart (indent ++ (t ++ rest)) := by
  rw [trimStart_append, if_pos hi]
  cases t with
  | nil => exact List.nil_prefix
  | cons c t =>
    rw [trimStart_of_head (by simpa using ht c rfl)]
    exact List.prefix_append _ _

/-- A part of a written text that is none of its lines is the empty one after the last line feed. -/
theorem getElem?_split_ofLines {lines : List Text} (h : ∀ line ∈ lines, '\n' ∉ line) {closed : Bool}
    {k : Nat} {part : Text} (hk : (split '\n' (ofLines lines closed))[k]? = some part) :
    lines[k]? = some part ∨ lines.length ≤ k ∧ part = [] := by
  by_cases hne : lines = []
  · right
    subst hne
    have hempty : ∀ part ∈ split '\n' (ofLines [] closed), part = [] := by
      cases closed <;> simp [ofLines, join, split]
    exact ⟨Nat.zero_le k, hempty part (List.mem_of_getElem? hk)⟩
  · rw [split_ofLines hne h] at hk
    rcases Nat.lt_or_ge k lines.length with hlt | hge
    · rw [List.getElem?_append_left hlt] at hk
      exact Or.inl hk
    · rw [List.getElem?_append_right hge] at hk
      refine Or.inr ⟨hge, ?_⟩
      have hmem := List.mem_of_getElem? hk
      cases closed with
      | false => simp at hmem
      | true => simpa using hmem

end Text

/-! The builtin wording. -/

theorem Catalog.trimStart_builtin_indent (tag : Tag) :
    Text.trimStart (Catalog.builtin.rule tag).indent = [] := by
  cases tag <;> decide

theorem Catalog.builtin_passivePrefix {tag : Tag} (h : tag ≠ .buildDependency) :
    "-- ".toList <+: (Catalog.builtin.rule tag).passivePrefix := by
  revert h
  cases tag <;> decide

theorem Catalog.builtin_indent_one_line (tag : Tag) : '\n' ∉ (Catalog.builtin.rule tag).indent := by
  cases tag <;> decide

theorem Catalog.builtin_passivePrefix_one_line (tag : Tag) :
    '\n' ∉ (Catalog.builtin.rule tag).passivePrefix := by
  cases tag <;> decide

theorem Source.claim_of_mem_blocks {sources : List Source} {b : Block}
    (h : b ∈ sources.flatMap Source.blocks) :
    ∃ s ∈ sources, b.extension = s.file.stem ∧ b.payloads = s.payloads b.tag ∧
      ∃ line ∈ s.content.lines, ∃ payload,
        Payload.claim? b.tag.token s.comment line = some payload := by
  obtain ⟨s, hs, hb⟩ := List.mem_flatMap.mp h
  obtain ⟨hne, heq⟩ := Source.mem_blocks.mp hb
  obtain ⟨payload, hpayload⟩ := List.exists_mem_of_ne_nil _ hne
  obtain ⟨line, hline, hclaim, -⟩ := Payload.mem_extract.mp hpayload
  exact ⟨s, hs, congrArg Block.extension heq, congrArg Block.payloads heq, line, hline, payload, hclaim⟩

section
variable {comment : Text} {sources : List Source} {template : List Text} {n i : Nat} {line : Text}

theorem Origin.prefix_of_heading (hcomment : ∀ s ∈ sources, s.comment = comment)
    (h : (heading n).text? .builtin .passive comment template (sources.flatMap Source.blocks) =
      some line) : comment <+: Text.trimStart line := by
  simp only [text?, Option.map_eq_some_iff] at h
  obtain ⟨b, hb, rfl⟩ := h
  have hmem := List.mem_of_getElem? (Block.placed?_eq_some_iff.mp hb).1
  obtain ⟨s, hs, -, -, tagged, -, payload, hclaim⟩ := Source.claim_of_mem_blocks hmem
  have hhead : ∀ c ∈ comment.head?, Text.isBlank c = false := by
    intro c hc
    rw [← hcomment s hs] at hc
    exact Payload.head_comment_of_claim? hclaim hc
  have hprefix := Text.prefix_trimStart_indented (Catalog.trimStart_builtin_indent b.tag) hhead
    ("   For extension ".toList ++ (b.extension ++ [':']))
  rw [Rule.heading]
  simpa only [List.append_assoc] using hprefix

theorem Origin.prefix_of_payload
    (h : (payload n i).text? .builtin .passive comment template (sources.flatMap Source.blocks) =
      some line) : "-- ".toList <+: Text.trimStart line := by
  simp only [text?, Option.bind_eq_some_iff, Option.map_eq_some_iff] at h
  obtain ⟨b, hb, payload, -, rfl⟩ := h
  have htag := (Block.placed?_eq_some_iff.mp hb).2
  obtain ⟨behind, hbehind⟩ := Catalog.builtin_passivePrefix htag
  have hdash : ∀ c ∈ ("-- ".toList).head?, Text.isBlank c = false := by
    intro c hc
    obtain rfl : '-' = c := Option.some.inj hc
    decide
  have hprefix := Text.prefix_trimStart_indented (Catalog.trimStart_builtin_indent b.tag) hdash
    (behind ++ payload)
  have hlead : (Catalog.builtin.rule b.tag).lead .passive =
      (Catalog.builtin.rule b.tag).passivePrefix := if_neg htag
  rw [Rule.render, hlead, ← hbehind]
  simpa only [List.append_assoc] using hprefix

/-- Every line of a passive config is one line when it is written, if the names of the files are. -/
theorem Origin.one_line (hcomment : ∀ s ∈ sources, s.comment = comment)
    (hstem : ∀ s ∈ sources, '\n' ∉ s.file.stem) (htemplate : ∀ line ∈ template, '\n' ∉ line)
    {o : Origin}
    (h : o.text? .builtin .passive comment template (sources.flatMap Source.blocks) = some line) :
    '\n' ∉ line := by
  cases o with
  | template i => exact htemplate line (List.mem_of_getElem? h)
  | heading n =>
    simp only [text?, Option.map_eq_some_iff] at h
    obtain ⟨b, hb, rfl⟩ := h
    have hmem := List.mem_of_getElem? (Block.placed?_eq_some_iff.mp hb).1
    obtain ⟨s, hs, hextension, -, tagged, htagged, payload, hclaim⟩ := Source.claim_of_mem_blocks hmem
    have hmark : '\n' ∉ comment := by
      intro hmem
      rw [← hcomment s hs] at hmem
      exact Text.not_mem_of_mem_lines htagged (Payload.comment_subset_of_claim? hclaim hmem)
    have hname : '\n' ∉ b.extension := hextension ▸ hstem s hs
    have hwords : '\n' ∉ "   For extension ".toList := by decide
    simp only [Rule.heading, List.mem_append, not_or]
    exact ⟨⟨⟨⟨Catalog.builtin_indent_one_line b.tag, hmark⟩, hwords⟩, hname⟩, by decide⟩
  | payload n i =>
    simp only [text?, Option.bind_eq_some_iff, Option.map_eq_some_iff] at h
    obtain ⟨b, hb, payload, hpayload, rfl⟩ := h
    obtain ⟨hblock, htag⟩ := Block.placed?_eq_some_iff.mp hb
    obtain ⟨s, hs, -, hpayloads, -⟩ := Source.claim_of_mem_blocks (List.mem_of_getElem? hblock)
    obtain ⟨tagged, htagged, hclaim, -⟩ :=
      Payload.mem_extract.mp (hpayloads ▸ List.mem_of_getElem? hpayload)
    have htext : '\n' ∉ payload := fun hmem =>
      Text.not_mem_of_mem_lines htagged (Payload.subset_of_claim? hclaim hmem)
    have hlead : (Catalog.builtin.rule b.tag).lead .passive =
        (Catalog.builtin.rule b.tag).passivePrefix := if_neg htag
    rw [Rule.render, hlead]
    simp only [List.mem_append, not_or]
    exact ⟨⟨Catalog.builtin_indent_one_line b.tag, Catalog.builtin_passivePrefix_one_line b.tag⟩, htext⟩

end

namespace Generation

/-- What the lines of a passive config are, cut at its line feeds, if no processed file has a line feed
in its name. A line is the template's, or a heading, which begins with the comment mark behind its
blanks, or a payload, which begins with `-- ` there; what follows the last line feed is empty. So with a
mark that `-- ` begins with, all that is added begins with the mark. -/
theorem commented_of_passive_run {t : FileTree} {c : Context} {g : Generation} (h : run t c = .ok g)
    (hcatalog : c.catalog = .builtin) (hmode : c.options.mode = .passive) :
    ∃ (names : List Text) (sources : List Source),
      Gathered t c names sources ∧
      (∃ listing, c.scan t = .ok (listing, sources.reverse.map Source.scan)) ∧
      let mark := c.options.comment
      let origins := (g.start c).origins .builtin .passive mark
        (sources.reverse.flatMap Source.blocks)
      (∀ s ∈ sources, '\n' ∉ s.file.stem) →
        ∀ (k : Nat) (line : Text), (Text.split '\n' g.config.content)[k]? = some line →
          (match origins[k]? with
            | some (.template i) => g.config.template.lines[i]? = some line
            | some (.heading _) => mark <+: Text.trimStart line
            | some (.payload _ _) => "-- ".toList <+: Text.trimStart line
            | none => line = []) ∧
          (mark <+: "-- ".toList → ∀ origin, origins[k]? = some origin →
            (∀ i, origin ≠ .template i) → mark <+: Text.trimStart line) := by
  obtain ⟨listing, scans, final, -, -, hscan, hsplice, -, hcontent⟩ := run_eq_ok h
  obtain ⟨names, sources, hgathered, rfl⟩ := Context.scan_eq_ok hscan
  refine ⟨names, sources, hgathered, ⟨listing, hscan⟩, ?_⟩
  intro mark origins hstem k line hline
  have hpayloads : ∀ b ∈ sources.reverse.flatMap Source.blocks, b.payloads ≠ [] :=
    fun b hb => Source.payloads_ne_nil hb
  have hcomment : ∀ s ∈ sources.reverse, s.comment = mark :=
    fun s hs => hgathered.comment s (List.mem_reverse.mp hs)
  have horigins : origins.map (Origin.text? .builtin .passive mark g.config.template.lines
      (sources.reverse.flatMap Source.blocks)) = final.config.lines.map some := by
    rw [hcatalog, hmode, Drafts.splice_scans, Prod.mk.injEq] at hsplice
    rw [← hsplice.1]
    exact Drafts.map_text?_origins .builtin .passive mark (g.start c) hpayloads
  -- the k-th line, if there is one, and its origin
  have hread : ∀ (k : Nat) (line : Text), final.config.lines[k]? = some line →
      ∃ o : Origin, origins[k]? = some o ∧
        o.text? .builtin .passive mark g.config.template.lines
          (sources.reverse.flatMap Source.blocks) = some line := by
    intro k line hline
    have hget := congrArg (·[k]?) horigins
    simpa [hline, Option.map_eq_some_iff] using hget
  have honeLine : ∀ line ∈ final.config.lines, '\n' ∉ line := by
    intro line hmem
    obtain ⟨k, hk⟩ := List.mem_iff_getElem?.mp hmem
    obtain ⟨o, -, ho⟩ := hread k line hk
    exact Origin.one_line hcomment (fun s hs => hstem s (List.mem_reverse.mp hs))
      (fun _ => Text.not_mem_of_mem_lines) ho
  rw [hcontent, Draft.render] at hline
  rcases Text.getElem?_split_ofLines honeLine hline with hline | ⟨hk, rfl⟩
  · obtain ⟨o, ho, htext⟩ := hread k line hline
    rw [ho]
    cases o with
    | template i => exact ⟨htext, fun _ o ho hno => absurd (Option.some.inj ho).symm (hno i)⟩
    | heading n =>
      have hmark := Origin.prefix_of_heading hcomment htext
      exact ⟨hmark, fun _ _ _ _ => hmark⟩
    | payload n i =>
      have hdash := Origin.prefix_of_payload htext
      exact ⟨hdash, fun hmark _ _ _ => hmark.trans hdash⟩
  · have hnone : origins[k]? = none := by
      have hlength := congrArg List.length horigins
      rw [List.length_map, List.length_map] at hlength
      exact List.getElem?_eq_none (hlength ▸ hk)
    rw [hnone]
    exact ⟨rfl, fun _ _ ho => by cases ho⟩

theorem commented_of_sample_run :
    ∃ (names : List Text) (sources : List Source),
      Gathered sampleTree sampleContext names sources ∧
      let origins := (sample.start sampleContext).origins .builtin .passive "--".toList
        (sources.reverse.flatMap Source.blocks)
      ∀ (k : Nat) (line : Text), (Text.split '\n' sample.config.content)[k]? = some line →
        ∀ origin, origins[k]? = some origin → (∀ i, origin ≠ .template i) →
          "--".toList <+: Text.trimStart line := by
  obtain ⟨names, sources, hgathered, ⟨listing, hscan⟩, hlines⟩ :=
    commented_of_passive_run run_sample rfl rfl
  refine ⟨names, sources, hgathered, ?_⟩
  have hscans : sources.reverse.map Source.scan = sampleScans :=
    (Prod.mk.inj (Except.ok.inj (hscan.symm.trans scan_sample))).2
  have hstem : ∀ s ∈ sources, '\n' ∉ s.file.stem := by
    intro s hs
    have hscan : s.scan ∈ sampleScans := hscans ▸ List.mem_map_of_mem (List.mem_reverse.mpr hs)
    have hall : ∀ scan ∈ sampleScans, '\n' ∉ scan.file.stem := by decide +kernel
    exact hall s.scan hscan
  intro origins k line hline
  exact (hlines hstem k line hline).2 (by decide)

/-! A file whose tags stand behind `#`, and one with a line feed in its name. -/

def unguardedTree : FileTree :=
  let work := [encoded "work"]
  let main := encoded "main" :: work
  let ext := encoded "ext" :: work
  .listed work
    [([], .directory), (work, .directory), (main, .directory), (ext, .directory),
      (encoded "xmonad.cabal" :: main, .file []),
      (encoded "Config.hs" :: main, .file (encoded "-- % Extension-provided definitions\n")),
      (encoded "A.hs" :: ext, .file (encoded "# %def a = 1\n")),
      (encoded "B\nb = 2 --.hs" :: ext, .file (encoded "-- %def c = 3\n")),
      (encoded "Z.hs" :: ext, .file [])]
    (by decide) (by decide) (by decide)

def contextWithMark (mark : String) : Context :=
  { sampleContext with options := { sampleContext.options with comment := mark.toList } }

def unguarded (contributions : List Contribution) (content : String) : Generation where
  manifest := ⟨.manifest, "out/xmonad.cabal".toList, [], []⟩
  config := ⟨.config, "out/Config.hs".toList, "-- % Extension-provided definitions\n".toList,
    content.toList⟩
  contributions

def hashed : Generation :=
  unguarded [⟨"A".toList, .definition, 1⟩]
    "-- % Extension-provided definitions\n#   For extension A:\n-- a = 1\n"

def broken : Generation :=
  unguarded [⟨"B\nb = 2 --".toList, .definition, 1⟩]
    "-- % Extension-provided definitions\n--   For extension B\nb = 2 --:\n-- c = 3\n"

theorem listing_unguarded : Listing.ofDirectory unguardedTree "ext".toList {} =
    .ok ⟨["ext/B\nb = 2 --.hs".toList, "ext/A.hs".toList], some "ext/Z.hs".toList⟩ :=
  Listing.ofDirectory_of_pairwise rfl ["A.hs".toList, "B\nb = 2 --.hs".toList, "Z.hs".toList]
    (by decide +kernel) (by decide +kernel)

theorem scan_unguarded (mark : String) :
    (contextWithMark mark).scan unguardedTree =
      .ok (⟨["ext/B\nb = 2 --.hs".toList, "ext/A.hs".toList], some "ext/Z.hs".toList⟩,
        [Scan.ofContent "ext/B\nb = 2 --.hs".toList mark.toList "-- %def c = 3\n".toList,
          Scan.ofContent "ext/A.hs".toList mark.toList "# %def a = 1\n".toList]) := by
  -- the mark is not read for a listing
  have hlisting : Listing.ofDirectory unguardedTree "ext".toList (contextWithMark mark).options =
      Listing.ofDirectory unguardedTree "ext".toList {} := rfl
  exact bind_eq_ok.mpr ⟨_, hlisting.trans listing_unguarded, rfl⟩

theorem run_hashed : run unguardedTree (contextWithMark "#") = .ok hashed :=
  run_of_splice rfl rfl (scan_unguarded "#") (Prod.ext rfl rfl) (by decide +kernel) (by decide +kernel)

theorem run_broken : run unguardedTree (contextWithMark "--") = .ok broken :=
  run_of_splice rfl rfl (scan_unguarded "--") (Prod.ext rfl rfl) (by decide +kernel) (by decide +kernel)

/-- Passive runs that add lines which do not begin with the comment mark: a payload behind the builtin
prefix, where the mark is `#`, and the second half of a heading, where a name has a line feed. -/
theorem live_lines_in_passive_configs :
    (run unguardedTree (contextWithMark "#") = .ok hashed ∧
      (contextWithMark "#").catalog = .builtin ∧ (contextWithMark "#").options.mode = .passive ∧
      "-- a = 1".toList ∈ Text.split '\n' hashed.config.content ∧
      "-- a = 1".toList ∉ Text.split '\n' hashed.config.template ∧
      ¬ "#".toList <+: Text.trimStart "-- a = 1".toList) ∧
    (run unguardedTree (contextWithMark "--") = .ok broken ∧
      (contextWithMark "--").catalog = .builtin ∧ (contextWithMark "--").options.mode = .passive ∧
      "b = 2 --:".toList ∈ Text.split '\n' broken.config.content ∧
      "b = 2 --:".toList ∉ Text.split '\n' broken.config.template ∧
      ¬ "--".toList <+: Text.trimStart "b = 2 --:".toList) :=
  ⟨⟨run_hashed, rfl, rfl, by decide +kernel, by decide +kernel, by decide +kernel⟩,
    ⟨run_broken, rfl, rfl, by decide +kernel, by decide +kernel, by decide +kernel⟩⟩

end Generation
end TemplateSplice
