import Pseudocode.Main
import Pseudocode.Proofs.Plan
import Pseudocode.Proofs.Plan.Steps
import Pseudocode.Proofs.Change
import Pseudocode.Proofs.Plan.Invariant
import Pseudocode.Proofs.Plan.Discipline
import Pseudocode.Proofs.Plan.Lockstep
import Pseudocode.Proofs.Budget
import Pseudocode.Proofs.Budget.Charge
import Pseudocode.Proofs.Termination
import Pseudocode.Proofs.Undisturbed
import Pseudocode.Proofs.TypeSoundness
import Pseudocode.Proofs.Budget.Accounting
import Pseudocode.Proofs.Budget.Clock
import Pseudocode.Proofs.Budget.Limits
import Pseudocode.Proofs.Grammar.ExpressionDepth
import Pseudocode.Proofs.Grammar.Nesting
import Pseudocode.Proofs.Grammar.Program
import Pseudocode.Proofs.Grammar.Derivation
import Pseudocode.Proofs.Grammar.SingleTokens
import Pseudocode.Proofs.Grammar.Acceptance
import Pseudocode.Proofs.Grammar.ExpressionGrammar
import Pseudocode.Proofs.Grammar.Trees
import Pseudocode.Proofs.Grammar.Rendering
import Pseudocode.Proofs.Grammar.Reads
import Pseudocode.Proofs.Grammar.ExpressionRoundTrip
import Pseudocode.Proofs.Grammar.StatementRoundTrip
import Pseudocode.Proofs.Grammar.DeclarationRoundTrip
import Pseudocode.Proofs.Grammar.RoundTrip
import Pseudocode.Proofs.Isolation
import Pseudocode.Proofs.Scope.History
import Pseudocode.Proofs.Declarations
import Pseudocode.Proofs.Lexing.Cut
import Pseudocode.Proofs.Lexing.LineMark
import Pseudocode.Proofs.Lexing.Lossless
import Pseudocode.Proofs.Lexing.RoundTrip
import Pseudocode.Proofs.Plan.Parallel
import Pseudocode.Proofs.Lexing.Position
import Pseudocode.Proofs.Lexing.Vocabulary
import Pseudocode.Proofs.Lexing.Form
import Pseudocode.Proofs.Lexing.Written
import Pseudocode.Proofs.Number.Entier
import Pseudocode.Proofs.Number.Numeral
import Pseudocode.Proofs.Number.DecimalNumeral
import Pseudocode.Proofs.Text.Trim
import Pseudocode.Proofs.Text.ByteOrder
import Pseudocode.Proofs.Value.Input
import Pseudocode.Proofs.Value.Comparison
import Pseudocode.Proofs.PrintedEntier
import Pseudocode.Proofs.TurnCount
import Pseudocode.Proofs.ForLoop
import Pseudocode.Proofs.Number.Division
import Pseudocode.Proofs.Value.Arithmetic
import Pseudocode.Proofs.Value.Power
import Pseudocode.Proofs.Commutation
import Pseudocode.Proofs.Inputs
import Pseudocode.Proofs.Text.NameKey
import Pseudocode.Proofs.Value.Placed
import Pseudocode.Proofs.Likeness.Tree
import Pseudocode.Proofs.Likeness.Scope
import Pseudocode.Proofs.Likeness.Computation
import Pseudocode.Proofs.Likeness.Elementary
import Pseudocode.Proofs.Likeness.Run
import Pseudocode.Proofs.Content
import Pseudocode.Proofs.Spelling
import Pseudocode.Proofs.Grammar.Builds
import Pseudocode.Proofs.Grammar.BuildsProgram
import Pseudocode.Proofs.Grammar.Takes
import Pseudocode.Proofs.Grammar.OpenBlocks
import Pseudocode.Proofs.Grammar.OpenBlocksProgram
import Pseudocode.Proofs.Grammar.RowCount
import Pseudocode.Proofs.Grammar.BlockCount
import Pseudocode.Proofs.Reading
import Pseudocode.Proofs.BlockEnd
import Pseudocode.Proofs.ErrorOrigin
import Pseudocode.Proofs.ParsedProgram
import Pseudocode.Proofs.ErrorLine
import Pseudocode.Proofs.RepeatLoop
import Pseudocode.Proofs.Grammar.WriteForms
import Pseudocode.Proofs.Grammar.SectionEnd
import Pseudocode.Proofs.Grammar.Script
import Pseudocode.Proofs.Grammar.Separators
import Pseudocode.Proofs.Grammar.SeparatorsProgram
import Pseudocode.Proofs.Grammar.LineEnds
import Pseudocode.Proofs.Lexing.LetterCase
import Pseudocode.Proofs.Lexing.LineBreak
import Pseudocode.Proofs.Scope.Index
import Pseudocode.Proofs.Lexing.Joining
import Pseudocode.Proofs.RoutineOrder
import Pseudocode.Proofs.Exchange.RoundTrip
import Pseudocode.Proofs.Exchange.Response
import Pseudocode.Proofs.Number.ExactReel
import Pseudocode.Proofs.Number.FixedPoint
import Pseudocode.Proofs.PrintedReel
import Pseudocode.Proofs.Number.Rounding
