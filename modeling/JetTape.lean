import JetTape.Opcode
import JetTape.Fault
import JetTape.Index
import JetTape.Opcode.Relation
import JetTape.Scalar.Text
import JetTape.Arena.Buffer
import JetTape.Recurrence.Table
import JetTape.Replay.Cursor
import JetTape.Call.Frame
import JetTape.Replay.Sweep
import JetTape.Tape.Recorder
import JetTape.Tape.Sweep
import JetTape.Document.Tape
import JetTape.Document.Buffer
import JetTape.Proofs.Tape.Invariant
import JetTape.Proofs.Sweep.Safety
import JetTape.Proofs.Sweep.Dependence
import JetTape.Proofs.Sweep.Directions
import JetTape.Proofs.Sweep.Evaluation
import JetTape.Proofs.Sweep.Dilation
import JetTape.Proofs.Sweep.Writes
import JetTape.Proofs.Sweep.Calls
import JetTape.Proofs.Sweep.Deletion
import JetTape.Proofs.Sweep.Skipping
import JetTape.Proofs.Sweep.Refusal
import JetTape.Proofs.Sweep.Composition
import JetTape.Proofs.Document.Tape
import JetTape.Proofs.Batch
import JetTape.Proofs.Replay.Blind
import JetTape.Proofs.Sweep.Batch
import JetTape.Proofs.Recurrence.Slope
import JetTape.Proofs.Sweep.Slope
import JetTape.Proofs.Sweep.Delegation
import JetTape.Proofs.Recurrence.Equations
import JetTape.Proofs.Sweep.Completed
import JetTape.Proofs.Sweep.Equations
import JetTape.Proofs.Recurrence.Inversion
import JetTape.Proofs.Sweep.Inversion
import JetTape.Proofs.Replay.Brackets
import JetTape.Proofs.Sweep.Brackets
import JetTape.Proofs.Recurrence.Respelling
import JetTape.Proofs.Sweep.Respelling
import JetTape.Proofs.Tape.Rewriting
import JetTape.Proofs.Replay.Rewriting
import JetTape.Proofs.Sweep.Agreement
import JetTape.Proofs.Recurrence.Expansion
import JetTape.Proofs.Sweep.Rewriting
import JetTape.Proofs.Sweep.Expansion
import JetTape.Proofs.Recurrence.Promotion
import JetTape.Proofs.Sweep.Promotion
import JetTape.Proofs.Arena.Packing
import JetTape.Proofs.Document.Reading
import JetTape.Proofs.Tape.Rejection
import JetTape.Proofs.Replay.Extension
import JetTape.Proofs.Tape.Ended
import JetTape.Proofs.Sweep.Ended
import JetTape.Proofs.Sweep.Progress
import JetTape.Proofs.Recurrence.Absorption
