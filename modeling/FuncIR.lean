import FuncIR.Main
import FuncIR.Proofs.Parser.Alternation
import FuncIR.Proofs.Parser.Language
import FuncIR.Proofs.Grammar.Automaton
import FuncIR.Proofs.Grammar.Reading
import FuncIR.Proofs.Grammar.Simulation
import FuncIR.Proofs.Grammar.Functions
import FuncIR.Proofs.Grammar.Files
import FuncIR.Proofs.Grammar.Recognition
import FuncIR.Proofs.Grammar.Expectation
import FuncIR.Proofs.Grammar.Policies
import FuncIR.Proofs.Grammar.Layouts
import FuncIR.Proofs.Grammar.Spans
import FuncIR.Proofs.Compile.Written
import FuncIR.Proofs.Compile.Diagnostics
import FuncIR.Proofs.Compile.Recovery
import FuncIR.Proofs.Token.Lexeme
import FuncIR.Proofs.Token.Lossless
import FuncIR.Proofs.Token.Image
import FuncIR.Proofs.Parser.Position
import FuncIR.Proofs.Parser.Loop
import FuncIR.Proofs.Parser.FirstSets
import FuncIR.Proofs.Parser.Predictive
import FuncIR.Proofs.Parser.Lockstep
import FuncIR.Proofs.Parser.Failure
import FuncIR.Proofs.Parser.Commitment
import FuncIR.Proofs.Parser.OrderedChoice
import FuncIR.Proofs.Parser.Captures
import FuncIR.Proofs.Grammar.Typing
import FuncIR.Proofs.Parser.Surfacing
import FuncIR.Proofs.Parser.EndOfInput
import FuncIR.Proofs.Parser.Trace
import FuncIR.Proofs.IR.Composition
import FuncIR.Proofs.Text.Nesting
import FuncIR.Proofs.Cli.Effects
import FuncIR.Proofs.Cli.Listing
