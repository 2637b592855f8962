import Primer.Session
import Primer.Program.Meaning
import Primer.Program.Typing
import Primer.Token.Rendering
import Primer.Token.LexicalGrammar
import Primer.Token.Tokenizer
import Primer.Main
import Primer.Terminal
import Primer.Proofs.Stateful
import Primer.Proofs.Text.Encoding
import Primer.Proofs.Token.Restart
import Primer.Proofs.Token.Samples
import Primer.Proofs.Token.Unfinished
import Primer.Proofs.Token.LongestMatch
import Primer.Proofs.Token.LineNumbers
import Primer.Proofs.Token.Rendering
import Primer.Proofs.Grammar.Progress
import Primer.Proofs.Grammar.Derivation
import Primer.Proofs.Grammar.Recognition
import Primer.Proofs.Grammar.Tokens
import Primer.Proofs.Grammar.Parsing
import Primer.Proofs.Grammar.ContextFree
import Primer.Proofs.Grammar.Termination
import Primer.Proofs.Grammar.Lookahead
import Primer.Proofs.Grammar.Unfolding
import Primer.Proofs.Grammar.Leaves
import Primer.Proofs.Grammar.Calls
import Primer.Proofs.Grammar.Append
import Primer.Proofs.Grammar.Viability
import Primer.Proofs.Grammar.Parts
import Primer.Proofs.Grammar.Lines
import Primer.Proofs.Relocation
import Primer.Proofs.Semantics.Running
import Primer.Proofs.Semantics.Expressions
import Primer.Proofs.Semantics.Arithmetic
import Primer.Proofs.Semantics.Scopes
import Primer.Proofs.Semantics.Simulation
import Primer.Proofs.Semantics.Refinement
import Primer.Proofs.Semantics.Types
import Primer.Proofs.Semantics.Lines
import Primer.Proofs.Semantics.Output
import Primer.Proofs.Semantics.Operations
import Primer.Proofs.Semantics.Worlds
import Primer.Proofs.Semantics.Input
import Primer.Proofs.Semantics.Faults
import Primer.Proofs.Semantics.Discipline
import Primer.Proofs.Semantics.Targets
import Primer.Proofs.Semantics.Framing
import Primer.Proofs.Semantics.Loops
import Primer.Proofs.Semantics.LoopSplitting
import Primer.Proofs.Semantics.Soundness
import Primer.Proofs.Semantics.Provenance
import Primer.Proofs.Semantics.Atomicity
import Primer.Proofs.Semantics.TypeStability
import Primer.Proofs.Semantics.Shadowing
import Primer.Proofs.Continuation
import Primer.Proofs.ErrorLines
import Primer.Proofs.Interaction
import Primer.Proofs.Concatenation
import Primer.Proofs.Semantics.Balance
import Primer.Proofs.Scripts
import Primer.Proofs.Layout
import Primer.Proofs.Sessions
import Primer.Proofs.Numerals
