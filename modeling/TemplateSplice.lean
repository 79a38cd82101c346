import TemplateSplice.Main
import TemplateSplice.Proofs.Conservation
import TemplateSplice.Proofs.Manifest
import TemplateSplice.Proofs.Weave
import TemplateSplice.Proofs.WovenRun
import TemplateSplice.Proofs.Utf8
import TemplateSplice.Proofs.Listing
import TemplateSplice.Proofs.Generated
import TemplateSplice.Proofs.Origin
import TemplateSplice.Proofs.TwoRuns
import TemplateSplice.Proofs.Modes
import TemplateSplice.Proofs.Steering
import TemplateSplice.Proofs.Lines
import TemplateSplice.Proofs.TaggedLine
import TemplateSplice.Proofs.LineEndings
import TemplateSplice.Proofs.LineCodec
import TemplateSplice.Proofs.Grammar
import TemplateSplice.Proofs.ByteLines
import TemplateSplice.Proofs.Partition
import TemplateSplice.Proofs.Difference
import TemplateSplice.Proofs.PlainRun
import TemplateSplice.Proofs.Commented
import TemplateSplice.Proofs.Locate
import TemplateSplice.Proofs.Growth
import TemplateSplice.Proofs.Reread
import TemplateSplice.Proofs.FileName
import TemplateSplice.Proofs.Enumeration
import TemplateSplice.Proofs.Overlay
import TemplateSplice.Proofs.Rerun
import TemplateSplice.Proofs.Addition
import TemplateSplice.Proofs.Verdict
import TemplateSplice.Proofs.Effects
import TemplateSplice.Proofs.Intact
import TemplateSplice.Proofs.Insertions
import TemplateSplice.Proofs.Atomic
import TemplateSplice.Proofs.FieldEnds
import TemplateSplice.Proofs.FailedWrite
import TemplateSplice.Proofs.Tally
