import Lox.Main
import Lox.Session
import Lox.Decimal.Shortest
import Lox.Proofs.Attempts
import Lox.Proofs.CorrectPrefix
import Lox.Proofs.Recovery
import Lox.Proofs.Yield
import Lox.Proofs.Lexeme
import Lox.Proofs.MaximalMunch
import Lox.Proofs.Likeness
import Lox.Proofs.ValueKinds
import Lox.Proofs.KindReading
import Lox.Proofs.Layout
import Lox.Proofs.Newline
import Lox.Proofs.Pieces
import Lox.Proofs.Parentheses
import Lox.Proofs.Outcome
import Lox.Proofs.Steps
import Lox.Proofs.LimitedOutput
import Lox.Proofs.Prompt
import Lox.Proofs.Doubles
import Lox.Proofs.ReadBack
import Lox.Proofs.History
import Lox.Proofs.Lines
import Lox.Proofs.MissingSemicolon
import Lox.Proofs.Spacing
import Lox.Proofs.Mending
import Lox.Proofs.FirstFailure
import Lox.Proofs.Execution
import Lox.Proofs.Substitution
import Lox.Proofs.Renaming
import Lox.Proofs.Progress
import Lox.Proofs.Printed
import Lox.Proofs.Independence
import Lox.Proofs.Relabeling
import Lox.Proofs.Concatenation
import Lox.Proofs.FlushFailure
import Lox.Proofs.LongestChain
