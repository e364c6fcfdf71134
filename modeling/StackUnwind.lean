import StackUnwind.AssembledUnit
import StackUnwind.Host.Quota
import StackUnwind.Main
import StackUnwind.Proofs.CommandLine.Arguments
import StackUnwind.Proofs.CommandLine.Markers
import StackUnwind.Proofs.CommandLine.Pieces
import StackUnwind.Proofs.CommandLine.Trace
import StackUnwind.Proofs.CommandLine.TypedSpan
import StackUnwind.Proofs.Context.Accounts
import StackUnwind.Proofs.Context.Bounds
import StackUnwind.Proofs.Context.Calls
import StackUnwind.Proofs.Context.Comparison
import StackUnwind.Proofs.Context.Contracts
import StackUnwind.Proofs.Context.FakeSplitting
import StackUnwind.Proofs.Context.Histories
import StackUnwind.Proofs.Context.Requests
import StackUnwind.Proofs.Context.Room
import StackUnwind.Proofs.Context.Symmetry
import StackUnwind.Proofs.Context.Variants
import StackUnwind.Proofs.Emission.Abandoned
import StackUnwind.Proofs.Emission.Encodable
import StackUnwind.Proofs.Emission.Epilog
import StackUnwind.Proofs.Emission.Mirror
import StackUnwind.Proofs.Emission.Oversized
import StackUnwind.Proofs.Emission.Prolog
import StackUnwind.Proofs.Emission.Refusal
import StackUnwind.Proofs.Emission.Variants
import StackUnwind.Proofs.Encoder.Append
import StackUnwind.Proofs.Encoder.Labels
import StackUnwind.Proofs.Encoder.Operation
import StackUnwind.Proofs.Encoder.Reading
import StackUnwind.Proofs.Encoder.Run
import StackUnwind.Proofs.Exchange.Acceptance
import StackUnwind.Proofs.Exchange.Delivery
import StackUnwind.Proofs.Exchange.Errand
import StackUnwind.Proofs.Exchange.Faults
import StackUnwind.Proofs.Exchange.Room
import StackUnwind.Proofs.Frame.Built
import StackUnwind.Proofs.Frame.Geometry
import StackUnwind.Proofs.Generation.Commit
import StackUnwind.Proofs.Generation.Placement
import StackUnwind.Proofs.Generation.Range
import StackUnwind.Proofs.Generation.Run
import StackUnwind.Proofs.Generation.Variants
import StackUnwind.Proofs.Host.Ledger
import StackUnwind.Proofs.Instruction.Reading
import StackUnwind.Proofs.Instruction.Size
import StackUnwind.Proofs.Layout.Range
import StackUnwind.Proofs.Machine.Alignment
import StackUnwind.Proofs.Machine.Basic
import StackUnwind.Proofs.Machine.Epilog
import StackUnwind.Proofs.Machine.Frame
import StackUnwind.Proofs.Machine.Prolog
import StackUnwind.Proofs.Machine.Unwind
import StackUnwind.Proofs.Outcome
import StackUnwind.Proofs.Prolog.Demands
import StackUnwind.Proofs.Prolog.Instruction
import StackUnwind.Proofs.Recorder.Acceptance
import StackUnwind.Proofs.Recorder.Brackets
import StackUnwind.Proofs.Recorder.Opening
import StackUnwind.Proofs.Recorder.Variants
import StackUnwind.Proofs.Text.Numeral
import StackUnwind.Proofs.UnitCode.Calls
import StackUnwind.Proofs.UnitCode.Division
import StackUnwind.Proofs.UnitCode.Trace
import StackUnwind.Proofs.UnwindRecord.Acceptance
import StackUnwind.Proofs.UnwindRecord.Image
import StackUnwind.Proofs.UnwindRecord.Reading
import StackUnwind.Proofs.UnwindRecord.Scan
import StackUnwind.Proofs.UnwindRecord.Shortest
