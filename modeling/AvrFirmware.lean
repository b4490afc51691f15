import AvrFirmware.Numeral
import AvrFirmware.Register
import AvrFirmware.Instruction
import AvrFirmware.Instruction.Flow
import AvrFirmware.Instruction.Encoding
import AvrFirmware.Instruction.Decoding
import AvrFirmware.Instruction.Printer
import AvrFirmware.Instruction.Encodable
import AvrFirmware.Text.Blank
import AvrFirmware.Text.Printable
import AvrFirmware.Text.Quoted
import AvrFirmware.Image
import AvrFirmware.Hex.Record
import AvrFirmware.Hex.File
import AvrFirmware.Json
import AvrFirmware.Exchange.Instruction
import AvrFirmware.Assembly.Token
import AvrFirmware.Assembly.Operand
import AvrFirmware.Assembly.Error
import AvrFirmware.Assembly.Line
import AvrFirmware.Assembly.Form
import AvrFirmware.Assembly.Building
import AvrFirmware.Assembly.Program
import AvrFirmware.Stack.Usage
import AvrFirmware.Stack.Config
import AvrFirmware.Stack.Memo
import AvrFirmware.Stack.Report
import AvrFirmware.Stack.Event
import AvrFirmware.Stack.Effect
import AvrFirmware.Stack.Session
import AvrFirmware.Stack.Analysis
import AvrFirmware.Exchange.Analysis
import AvrFirmware.Command.Options
import AvrFirmware.Command.Outcome
import AvrFirmware.Main
import AvrFirmware.Proofs.Stack.Flow
import AvrFirmware.Proofs.Stack.Memo
import AvrFirmware.Proofs.Stack.Reached
import AvrFirmware.Proofs.Stack.Path
import AvrFirmware.Proofs.Stack.Cycle
import AvrFirmware.Proofs.Stack.Bound
import AvrFirmware.Proofs.Stack.Budget
import AvrFirmware.Proofs.Stack.Departures
import AvrFirmware.Proofs.Stack.History
import AvrFirmware.Proofs.Stack.Saturation
import AvrFirmware.Proofs.Stack.Underflow
import AvrFirmware.Proofs.Stack.Gaps
import AvrFirmware.Proofs.Stack.Alarms
import AvrFirmware.Proofs.Stack.Lockstep
import AvrFirmware.Proofs.Stack.Comparison
import AvrFirmware.Proofs.Stack.Unreached
import AvrFirmware.Proofs.Stack.Consistency
import AvrFirmware.Proofs.Stack.Log
import AvrFirmware.Proofs.Instruction.Fields
import AvrFirmware.Proofs.Instruction.Restoring
import AvrFirmware.Proofs.Instruction.Codec
import AvrFirmware.Proofs.Assembly.Range
import AvrFirmware.Proofs.Assembly.Patterns
import AvrFirmware.Proofs.Assembly.Lexing
import AvrFirmware.Proofs.Assembly.Locality
import AvrFirmware.Proofs.Assembly.Spelling
import AvrFirmware.Proofs.Assembly.Grammar
import AvrFirmware.Proofs.Hex.Grammar
import AvrFirmware.Proofs.Hex.Writing
import AvrFirmware.Proofs.Hex.Transfer
import AvrFirmware.Proofs.Hex.Loading
import AvrFirmware.Proofs.Hex.Capacity
import AvrFirmware.Proofs.Hex.Corruption
import AvrFirmware.Proofs.Assembly.Reassembly
import AvrFirmware.Proofs.Image.Placement
import AvrFirmware.Proofs.Image.Extent
import AvrFirmware.Proofs.Stack.StraightLine
import AvrFirmware.Proofs.Assembly.Layout
import AvrFirmware.Proofs.Assembly.Targets
import AvrFirmware.Proofs.Assembly.Boundaries
import AvrFirmware.Proofs.Assembly.Listing
