import Intcode.Chain
import Intcode.Command.Execute
import Intcode.Command.Help
import Intcode.Command.Line
import Intcode.Command.Option
import Intcode.Command.Word
import Intcode.Event
import Intcode.Fault
import Intcode.Files
import Intcode.Instruction
import Intcode.Listing
import Intcode.Machine.Basic
import Intcode.Machine.Config
import Intcode.Machine.Request
import Intcode.Machine.Shown
import Intcode.Main
import Intcode.Memory
import Intcode.Numeral
import Intcode.Opcode
import Intcode.Ordering
import Intcode.Program
import Intcode.Proofs.Conservation
import Intcode.Proofs.Execution
import Intcode.Proofs.FailingSteps
import Intcode.Proofs.Forwarding
import Intcode.Proofs.Histories
import Intcode.Proofs.InstructionSet
import Intcode.Proofs.Lifecycle
import Intcode.Proofs.ListingMeaning
import Intcode.Proofs.Numerals
import Intcode.Proofs.Observers
import Intcode.Proofs.PrintedLines
import Intcode.Proofs.Reboot
import Intcode.Proofs.Replay
import Intcode.Proofs.Resumption
import Intcode.Proofs.Ring
import Intcode.Proofs.Schedule
import Intcode.Proofs.Stalls
import Intcode.Proofs.Transparency
import Intcode.Queue
import Intcode.Session
import Intcode.Slice
import Intcode.Status
import Intcode.Terminal
import Intcode.Text.Blank
import Intcode.Text.Digit
import Intcode.Text.Printable
import Intcode.Text.Quoted
import Intcode.Text.Utf8
import Intcode.Window
import Intcode.Proofs.ProgramText
import Intcode.Proofs.Stepping
import Intcode.Proofs.Transcripts
import Intcode.Proofs.InputSources
import Intcode.Proofs.PrintedOutput
import Intcode.Proofs.SessionOperations
import Intcode.Proofs.Containment
import Intcode.Proofs.Bookkeeping
import Intcode.Proofs.Legibility
import Intcode.Proofs.TerminalView
import Intcode.Proofs.EventLog
import Intcode.Proofs.CommandFailures
import Intcode.Proofs.ExitStatus
import Intcode.Proofs.ChainResults
import Intcode.Proofs.Composition
import Intcode.Proofs.BestSetting
import Intcode.Proofs.Orderings
import Intcode.Proofs.ProgramGrammar
import Intcode.Proofs.LinearSweep
import Intcode.Proofs.ListingWindow
import Intcode.Proofs.OutsideAccess
import Intcode.Proofs.TypedDigits
import Intcode.Proofs.WordDigits
import Intcode.Proofs.EventLines
import Intcode.Proofs.ListingReadBack
