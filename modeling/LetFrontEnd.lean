import LetFrontEnd.Token
import LetFrontEnd.Lexeme
import LetFrontEnd.Cursor
import LetFrontEnd.Text.Inkless
import LetFrontEnd.Text
import LetFrontEnd.Scanner
import LetFrontEnd.Event
import LetFrontEnd.Program
import LetFrontEnd.Parser
import LetFrontEnd.Cursor.Pool
import LetFrontEnd.Parser.Command
import LetFrontEnd.Program.Pool
import LetFrontEnd.Session
import LetFrontEnd.Trace
import LetFrontEnd.Log
import LetFrontEnd.CommandLine
import LetFrontEnd.Main
import LetFrontEnd.Proofs.Stream
import LetFrontEnd.Proofs.Vocabulary
import LetFrontEnd.Proofs.LongestMatch
import LetFrontEnd.Proofs.Layout
import LetFrontEnd.Proofs.Window
import LetFrontEnd.Proofs.Findings
import LetFrontEnd.Proofs.Grammar
import LetFrontEnd.Proofs.Appending
import LetFrontEnd.Proofs.Juncture
import LetFrontEnd.Proofs.Lines
import LetFrontEnd.Proofs.Transcript
import LetFrontEnd.Proofs.Wording
import LetFrontEnd.Proofs.Decoding
import LetFrontEnd.Proofs.Prompts
import LetFrontEnd.Proofs.Faults
import LetFrontEnd.Proofs.Precedence
import LetFrontEnd.Proofs.Lookahead
import LetFrontEnd.Proofs.Accounting
import LetFrontEnd.Proofs.Pulling
import LetFrontEnd.Proofs.Ledger
import LetFrontEnd.Proofs.Registers
import LetFrontEnd.Proofs.Scanning
import LetFrontEnd.Proofs.Composition
import LetFrontEnd.Proofs.Printing
import LetFrontEnd.Proofs.Narration
import LetFrontEnd.Proofs.Chronicle
import LetFrontEnd.Proofs.Logging
import LetFrontEnd.Proofs.Recovery
import LetFrontEnd.Proofs.Resuming
import LetFrontEnd.Proofs.Outcomes
import LetFrontEnd.Proofs.Halting
import LetFrontEnd.Proofs.Trees
import LetFrontEnd.Proofs.Readback
import LetFrontEnd.Proofs.Unbroken
import LetFrontEnd.Proofs.Integrity
