import TemplateSplice.Proofs.Rerun
import TemplateSplice.Proofs.Verdict

/-! What the commands leave behind. A tree is changed only by a generation that is written, and then only
in the two places that its outputs lead to, and by the directories that were missing on the way there. -/

namespace TemplateSplice

open FileTree

namespace Generation

variable {t t' : FileTree} {g : Generation}

/-- A tree after the writing of a generation. A place that holds something else than before is a directory
on the way to an output, where nothing was, or holds what an output does whose path leads to it; and both
outputs have landed, the manifest unless the config was written over it. -/
structure Written (t t' : FileTree) (g : Generation) : Prop where
  entry : ∀ l, t'.entry? l = t.entry? l ∨
    (t.entry? l = none ∧ t'.entry? l = some .directory ∧
      ∃ o ∈ g.outputs, ∃ p ∈ o.path.ancestors, t'.resolve p = .ok l) ∨
    (t.entry? l ≠ some .directory ∧
      ∃ o ∈ g.outputs, t'.resolve o.path = .ok l ∧ t'.entry? l = some (.file o.content.utf8))
  config : ∃ l, Landed t' g.config l
  manifest : ∃ l, t'.resolve g.manifest.path = .ok l ∧
    (Landed t' g.manifest l ∨ t'.resolve g.config.path = .ok l)

theorem written_of_write (h : g.write t = (t', none)) : Written t t' g := by
  obtain ⟨l, l', halong, hsettled⟩ := settled_of_write h
  obtain ⟨hconfig, hmanifest, hlanded⟩ := landed_of_settled hsettled
  refine ⟨fun k => ?_, ⟨l', hconfig⟩, l, hmanifest, ?_⟩
  · rcases halong.grown.entry k with hsame | ⟨hnone, hmade⟩ | ⟨hk, hfile, content, hcontent⟩
    · exact Or.inl hsame
    · obtain ⟨p, hp, hk⟩ := halong.made k hnone hmade
      obtain ⟨o, ho, hp⟩ := List.mem_flatMap.mp hp
      exact Or.inr (Or.inl ⟨hnone, hmade, o, ho, p, hp, hk⟩)
    · obtain ⟨o, ho, hlanded⟩ := hsettled.exists_landed hk
      refine Or.inr (Or.inr ⟨hfile.ne (by simp), o, ho, hlanded.resolve, ?_⟩)
      rcases hlanded.entry with hfound | hdevice
      · exact hfound
      · rw [hcontent] at hdevice; cases hdevice
  · by_cases heq : l = l'
    · exact Or.inr (heq ▸ hconfig.resolve)
    · exact Or.inl (hlanded heq)

theorem Written.file (h : Written t t' g) {l : Location} {content : Bytes}
    (hl : t.entry? l = some (.file content)) :
    t'.entry? l = t.entry? l ∨
      ∃ o ∈ g.outputs, t'.resolve o.path = .ok l ∧ t'.entry? l = some (.file o.content.utf8) := by
  rcases h.entry l with hsame | ⟨hnone, -⟩ | ⟨-, hwritten⟩
  · exact Or.inl hsame
  · rw [hnone] at hl; cases hl
  · exact Or.inr hwritten

end Generation

theorem Settings.load_of_text {t : FileTree} {dir p : Path} {content : Text} {s : Settings}
    (hpath : Settings.path? t dir = some p) (hread : t.readText p = .ok content)
    (hsettings : (Toml.read? content >>= ofTable?) = some s) : Settings.load t dir = .ok s := by
  unfold load
  rw [hpath]
  simp only [hread]
  unfold parse
  rw [hsettings]

namespace Inputs

variable {order : TableOrder} {t : FileTree} {i : Inputs}

theorem generate_cases (order : TableOrder) (i : Inputs) (t : FileTree)
    (color dryRun showDiff : Bool) :
    (∃ fault, (∀ c g, i.context order t = .ok c → Generation.run t c ≠ .ok g) ∧
      i.generate order t color dryRun showDiff = (t, .ofFault fault)) ∨
    ∃ c g, i.context order t = .ok c ∧ Generation.run t c = .ok g ∧
      i.generate order t color dryRun showDiff =
        if dryRun then (t, .preview color showDiff c.workspace.output g)
        else ((g.write t).1, ((g.write t).2.map .ofFault).getD (.written c.workspace.output g)) := by
  unfold generate
  cases hcontext : i.context order t with
  | error fault => exact Or.inl ⟨fault, by simp, rfl⟩
  | ok c =>
    cases hrun : Generation.run t c with
    | error fault =>
      refine Or.inl ⟨fault, fun c' g hc' => ?_, by simp [hrun]⟩
      obtain rfl := Except.ok.inj hc'
      simp [hrun]
    | ok g =>
      refine Or.inr ⟨c, g, rfl, hrun, ?_⟩
      simp only [hrun]
      split_ifs
      · rfl
      · split <;> next hwrite => simp [hwrite]

theorem generate_dryRun (color showDiff : Bool) : (i.generate order t color true showDiff).1 = t := by
  rcases generate_cases order i t color true showDiff with ⟨fault, -, hgenerate⟩ | ⟨c, g, -, -, hgenerate⟩
  · rw [hgenerate]
  · rw [hgenerate, if_pos rfl]

/-- A generate command that succeeds has run and, unless it is a dry run, has written what it came to. -/
theorem written_of_generate {color dryRun showDiff : Bool}
    (h : (i.generate order t color dryRun showDiff).2.exit = 0) :
    ∃ c g, i.context order t = .ok c ∧ Generation.run t c = .ok g ∧
      (dryRun = false → g.write t = ((i.generate order t color dryRun showDiff).1, none)) := by
  rcases generate_cases order i t color dryRun showDiff with
    ⟨fault, -, hgenerate⟩ | ⟨c, g, hc, hg, hgenerate⟩
  · rw [hgenerate] at h; cases h
  · refine ⟨c, g, hc, hg, ?_⟩
    rintro rfl
    rw [hgenerate, if_neg Bool.false_ne_true] at h ⊢
    cases hfault : (g.write t).2 with
    | none => exact Prod.ext rfl hfault
    | some fault => rw [hfault] at h; cases h

end Inputs

theorem runArguments_of_write {order : TableOrder} {t t' : FileTree} {args : List Text} {i : Inputs}
    {showDiff noColor : Bool} {c : Context} {g : Generation}
    (hargs : Arguments.parse? args = some (.perform (.generate i false showDiff) noColor))
    (hcontext : i.context order t = .ok c) (hrun : Generation.run t c = .ok g)
    (hwrite : g.write t = (t', none)) (color : Bool) :
    runArguments order t color args = (t', .written c.workspace.output g) := by
  simp [runArguments_of_parse hargs, Command.run, Inputs.generate, hcontext, hrun, hwrite]

namespace Generation

/-! The sample run as a command, and the run whose outputs are devices, by a settings file. -/

def sampleArguments : List Text :=
  ["generate".toList, "-mmain".toList, "-cext".toList, "-oout".toList]

theorem parse_sampleArguments :
    Arguments.parse? sampleArguments = some (.perform (.generate sampleInputs false false) false) := by
  decide +kernel

theorem run_sample_command : runArguments .asWritten sampleTree false sampleArguments =
    ((sample.write sampleTree).1, .written "out".toList sample) := by
  have hwrite : (sample.write sampleTree).2 = none := by decide +kernel
  exact runArguments_of_write parse_sampleArguments rfl run_sample (Prod.ext rfl hwrite) false

end Generation
end TemplateSplice
