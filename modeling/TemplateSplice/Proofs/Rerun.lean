import TemplateSplice.Proofs.Generated
import TemplateSplice.Proofs.Reread

/-! A run after its outputs have been written. The outputs are in the way of nothing that a run reads:
their names are not listed as extensions, and unless they are written into the directory of the
templates, they stand in other places than these. So if no other name leads to them, the same run comes
to the same generation, and what was written is up to date, except what went to a device. -/

namespace TemplateSplice

open FileTree

variable {t t' : FileTree}

namespace FileTree

/-- Two paths lead to one directory. The empty path is the working directory, as it is where names are
seen from it. -/
def SameDirectory (t : FileTree) (p q : Path) : Prop :=
  ∃ l, t.resolve (p.join ['.']) = .ok l ∧ t.resolve (q.join ['.']) = .ok l

end FileTree

namespace Generation

variable {c : Context} {g : Generation}

/-- By the name of the config a link leads to the manifest, and only the later of them stays. -/
example :
    let out := [encoded "out"]
    let start : FileTree := .listed []
      (sampleTree.entries ++
        [(out, .directory), (encoded "xmonad.cabal" :: out, .file []),
          (encoded "Config.hs" :: out, .link (encoded "xmonad.cabal" :: out))])
      (List.mem_append_left _ sampleTree.root_mem) (by decide +kernel) (by decide +kernel)
      (by decide +kernel)
    (sample.write start).2 = none ∧
      sample.check (sample.write start).1 =
        .ok [⟨"out/xmonad.cabal".toList, some sample.config.content, sample.manifest.content⟩] := by
  decide +kernel

/-! The sample run, with its outputs written in between the extensions. -/

end Generation
end TemplateSplice
