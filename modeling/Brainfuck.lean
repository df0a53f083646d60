import Brainfuck.Command
import Brainfuck.Token
import Brainfuck.Utf8
import Brainfuck.Opcode
import Brainfuck.Idiom
import Brainfuck.Phrase
import Brainfuck.Error
import Brainfuck.Program
import Brainfuck.Program.Compile
import Brainfuck.Tape
import Brainfuck.Tape.Words
import Brainfuck.Tape.Operation
import Brainfuck.Machine
import Brainfuck.Console
import Brainfuck.Clock
import Brainfuck.Session
import Brainfuck.Session.Call
import Brainfuck.Session.Host
import Brainfuck.Options
import Brainfuck.Interpreter
import Brainfuck.Text.Alphanumeric
import Brainfuck.Text.Blank
import Brainfuck.Text.Numeral
import Brainfuck.Text.Cut
import Brainfuck.Binary64
import Brainfuck.Binary64.Decimal
import Brainfuck.Log
import Brainfuck.Log.Pattern.Nesting
import Brainfuck.Log.Pattern.Escape
import Brainfuck.Log.Pattern.Class
import Brainfuck.Log.Pattern
import Brainfuck.Log.Directive
import Brainfuck.Log.Filter
import Brainfuck.CommandLine.Arguments
import Brainfuck.CommandLine.Files
import Brainfuck.CommandLine.Job
import Brainfuck.CommandLine.Terminal
import Brainfuck.Idiom.Walk
import Brainfuck.Program.Pass
import Brainfuck.Plain
import Brainfuck.Main
import Brainfuck.Proofs.Balance
import Brainfuck.Proofs.Spelling
import Brainfuck.Proofs.Stretch
import Brainfuck.Proofs.Assembly
import Brainfuck.Proofs.Lexing
import Brainfuck.Proofs.Acceptance
import Brainfuck.Proofs.Targets
import Brainfuck.Proofs.Grammar
import Brainfuck.Proofs.Relabelling
import Brainfuck.Proofs.Walks
import Brainfuck.Proofs.Overloads
import Brainfuck.Proofs.Bounds
import Brainfuck.Proofs.Advances
import Brainfuck.Proofs.Passes
import Brainfuck.Proofs.Verdicts
import Brainfuck.Proofs.RelabelledPass
import Brainfuck.Proofs.Comments
import Brainfuck.Proofs.Listing
import Brainfuck.Proofs.WellFormed
import Brainfuck.Proofs.Running
import Brainfuck.Proofs.Cells
import Brainfuck.Proofs.Rounds
import Brainfuck.Proofs.Dispatch
import Brainfuck.Proofs.Places
import Brainfuck.Proofs.Meeting
import Brainfuck.Proofs.Simulation
import Brainfuck.Proofs.Together
import Brainfuck.Proofs.Preservation
import Brainfuck.Proofs.Charges
import Brainfuck.Proofs.Faults
import Brainfuck.Proofs.Turns
import Brainfuck.Proofs.Slices
import Brainfuck.Proofs.Endings
import Brainfuck.Proofs.ZeroBytes
import Brainfuck.Proofs.Extent
import Brainfuck.Proofs.Placement
import Brainfuck.Proofs.Safety
import Brainfuck.Proofs.Views
import Brainfuck.Proofs.Widening
import Brainfuck.Proofs.Reflection
import Brainfuck.Proofs.ReflectedRun
import Brainfuck.Proofs.Composition
import Brainfuck.Proofs.FaultPlaces
import Brainfuck.Proofs.Breakdown
import Brainfuck.Proofs.Scans
import Brainfuck.Proofs.Adapters
import Brainfuck.Proofs.Displacements
import Brainfuck.Proofs.Tables
import Brainfuck.Proofs.Reading
import Brainfuck.Proofs.Hosts
