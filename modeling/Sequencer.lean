import Sequencer.Bytecode.Cartridge
import Sequencer.Generator
import Sequencer.Primitive
import Sequencer.Pump
import Sequencer.Proofs.Encoding
import Sequencer.Proofs.Script.Emission
import Sequencer.Proofs.Script.LabelTargets
import Sequencer.Proofs.Script.Reading
import Sequencer.Proofs.Script.Grammar
import Sequencer.Proofs.Script.Soundness
import Sequencer.Proofs.Script.Completeness.Statements
import Sequencer.Proofs.Script.Completeness.Scripts
import Sequencer.Proofs.Script.Writing
import Sequencer.Proofs.Recompilation
import Sequencer.Proofs.Script.Tame
import Sequencer.Proofs.Track.Steps
import Sequencer.Proofs.Track.Overrun
import Sequencer.Proofs.SongLayout
import Sequencer.Proofs.Channel
import Sequencer.Proofs.Player
import Sequencer.Proofs.Isolation
import Sequencer.Proofs.Track.InstructionLimit
import Sequencer.Proofs.Ensemble
import Sequencer.Proofs.Pump
import Sequencer.Proofs.Pump.Progress
import Sequencer.Proofs.Interleaving
import Sequencer.Proofs.Track.Countdown
import Sequencer.Proofs.Track.Schedule
import Sequencer.Proofs.Script.Schedule
import Sequencer.Proofs.Track.Course
import Sequencer.Proofs.Script.Boundaries
import Sequencer.Proofs.Track.Window
import Sequencer.Proofs.Track.Relocation
import Sequencer.Proofs.Script.Padding
import Sequencer.Proofs.Generator.Phrases
import Sequencer.Proofs.Generator.Plans
import Sequencer.Assembler.Methods
import Sequencer.Proofs.Invocation
import Sequencer.Proofs.Disassembly
import Sequencer.Proofs.Script.Assembly
import Sequencer.Proofs.Player.Invariant
import Sequencer.Proofs.Player.Restart
import Sequencer.Proofs.Script.Passes
import Sequencer.Proofs.Script.Faults
import Sequencer.Proofs.Player.Finished
import Sequencer.Proofs.Script.Failures
import Sequencer.Proofs.Script.Spans
import Sequencer.Proofs.Text.Lines
import Sequencer.Proofs.Report
import Sequencer.Proofs.Track.Pulses
import Sequencer.Proofs.Player.Divider
import Sequencer.Proofs.Script.Slices
import Sequencer.Proofs.SongPacking
import Sequencer.Proofs.Channel.Packs
import Sequencer.Proofs.Track.Residues
import Sequencer.Proofs.Script.Beginnings
import Sequencer.Proofs.Script.Integers
import Sequencer.Proofs.Cartridge
import Sequencer.Proofs.Coercion
import Sequencer.Proofs.Track.Phases
import Sequencer.Proofs.Generator.Liveness
import Sequencer.Proofs.Track.History
import Sequencer.Proofs.Track.Anchor
import Sequencer.Proofs.Track.Register
