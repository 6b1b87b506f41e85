import DrillCycles.CommandLine.Workspace
import DrillCycles.Main
import DrillCycles.Proofs.Tag.Occurrence
import DrillCycles.Proofs.Tag.Removal
import DrillCycles.Proofs.Text.Lines
import DrillCycles.Proofs.Cycle.Step
import DrillCycles.Proofs.Motion.Writing
import DrillCycles.Proofs.Output.Suppression
import DrillCycles.Proofs.Cycle.History
import DrillCycles.Proofs.Cycle.Block
import DrillCycles.Proofs.Converter.Session
import DrillCycles.Proofs.Cycle.Lines
import DrillCycles.Proofs.Expand.Reconversion
import DrillCycles.Proofs.Cycle.Region
import DrillCycles.Proofs.Expand.Collapse
import DrillCycles.Proofs.Tag.Stripping
import DrillCycles.Proofs.Motion.Reading
import DrillCycles.Proofs.Cycle.Reading
import DrillCycles.Proofs.Cycle.PeckDepth
import DrillCycles.Proofs.Cycle.Finite
import DrillCycles.Proofs.Cycle.Commands
import DrillCycles.Proofs.Cycle.Isolation
import DrillCycles.Proofs.Expand.Emissions
import DrillCycles.Proofs.Expand.Retention
import DrillCycles.Proofs.Tag.Bytes
import DrillCycles.Proofs.Word.Bytes
import DrillCycles.Proofs.Cycle.Failure
import DrillCycles.Proofs.Converter.Failure
import DrillCycles.Proofs.Expand.Layout
import DrillCycles.Proofs.CommandLine.Layers
import DrillCycles.Proofs.Cycle.Undrilled
import DrillCycles.Proofs.Expand.Passage
import DrillCycles.Proofs.Converter.Output
import DrillCycles.Proofs.Cycle.Respelling
import DrillCycles.Proofs.Cycle.PeckSequence
import DrillCycles.Proofs.Tag.Agreement
import DrillCycles.Proofs.Tag.Tokens
import DrillCycles.Proofs.Cycle.PeckBounds
import DrillCycles.Proofs.Word.Grammar
import DrillCycles.Proofs.Cycle.WordOrder
import DrillCycles.Proofs.Modeline.Assignments
import DrillCycles.Proofs.Motion.Canonical
import DrillCycles.Proofs.CommandLine.Derivation
