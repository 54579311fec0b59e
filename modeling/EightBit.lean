import EightBit.Byte
import EightBit.Text.Quoted
import EightBit.Text.Blank
import EightBit.Text.Lines
import EightBit.Text.Styled
import EightBit.Isa.Disassembly
import EightBit.Source.Lexer
import EightBit.Program.Listing
import EightBit.Program.Diagnostic
import EightBit.Machine.State
import EightBit.Emulator.Snapshot
import EightBit.Text.Decimal
import EightBit.Text.Utf8
import EightBit.Emulator.Config
import EightBit.Main
import EightBit.Proofs.Program.Placement
import EightBit.Proofs.Program.Encoding
import EightBit.Proofs.Program.Emission
import EightBit.Proofs.Program.Assembly
import EightBit.Proofs.Program.Grammar
import EightBit.Proofs.Machine.Execution
import EightBit.Proofs.Program.Decoding
import EightBit.Proofs.Run.Jump
import EightBit.Proofs.Program.Straight
import EightBit.Proofs.Run.Straight
import EightBit.Proofs.Machine.Effect
import EightBit.Proofs.Run.Instruction
import EightBit.Proofs.Machine.Stack
import EightBit.Proofs.Run.Stack
import EightBit.Proofs.Run.Input
import EightBit.Proofs.Source.Spelling
import EightBit.Proofs.Source.Tiling
import EightBit.Proofs.Program.Operands
import EightBit.Proofs.Program.Reading
import EightBit.Proofs.Program.Writing
import EightBit.Proofs.Program.Printing
import EightBit.Proofs.Program.Loading
import EightBit.Proofs.Text.Fields
import EightBit.Proofs.Command.Performance
import EightBit.Proofs.Command.Hooks
import EightBit.Proofs.Command.Setup
import EightBit.Proofs.Command.SameRun
import EightBit.Proofs.Machine.Failure
import EightBit.Proofs.Machine.WorkingCopy
import EightBit.Proofs.Machine.Changes
import EightBit.Proofs.Program.Renaming
import EightBit.Proofs.Program.Relaying
import EightBit.Proofs.Program.SameTokens
import EightBit.Proofs.Program.LabelNames
import EightBit.Proofs.Program.Relocation
import EightBit.Proofs.Program.InRow
import EightBit.Proofs.Program.Disassembly
import EightBit.Proofs.Run.Masked
import EightBit.Proofs.Command.Observation
import EightBit.Proofs.Run.Frame
import EightBit.Proofs.Run.Waiting
import EightBit.Proofs.Program.AfterEnd
import EightBit.Proofs.Program.Marking
import EightBit.Proofs.Program.Places
import EightBit.Proofs.Machine.Arithmetic
import EightBit.Proofs.Program.LabelHistory
import EightBit.Proofs.Command.Snapshot
import EightBit.Proofs.Run.Stuttering
import EightBit.Proofs.Source.Lines
import EightBit.Proofs.Program.Extents
import EightBit.Proofs.Program.Page
import EightBit.Proofs.Program.Listing
import EightBit.Proofs.Program.Underline
import EightBit.Proofs.Program.StringUnits
import EightBit.Proofs.Source.Positions
