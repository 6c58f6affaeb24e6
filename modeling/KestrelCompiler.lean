import KestrelCompiler.Main
import KestrelCompiler.Session
import KestrelCompiler.Proofs.Reading.Cursor
import KestrelCompiler.Proofs.StringLiteral.Piece
import KestrelCompiler.Proofs.StringLiteral.Decoding
import KestrelCompiler.Proofs.Reading.Outcome
import KestrelCompiler.Proofs.Reading.Progress
import KestrelCompiler.Proofs.Grammar.Progress
import KestrelCompiler.Proofs.Grammar.Derivation
import KestrelCompiler.Proofs.Grammar.Lexeme
import KestrelCompiler.Proofs.Grammar.Commitment
import KestrelCompiler.Proofs.Grammar.Soundness
import KestrelCompiler.Proofs.Grammar.Completeness
import KestrelCompiler.Proofs.Grammar.Unambiguity
import KestrelCompiler.Proofs.Ir.WellFormed
import KestrelCompiler.Proofs.Lowering.Code
import KestrelCompiler.Proofs.Lowering.Run
import KestrelCompiler.Proofs.Lowering.Growth
import KestrelCompiler.Proofs.Lowering.Typing
import KestrelCompiler.Proofs.Ir.Naming
import KestrelCompiler.Proofs.Grammar.Identifier
import KestrelCompiler.Proofs.Lowering.Naming
import KestrelCompiler.Proofs.Lowering.Types
import KestrelCompiler.Proofs.Lowering.Declaration
import KestrelCompiler.Proofs.Emission.Run
import KestrelCompiler.Proofs.Emission.WellFormed
import KestrelCompiler.Proofs.Meaning.Machine
import KestrelCompiler.Proofs.Meaning.Evaluation
import KestrelCompiler.Proofs.Meaning.Expression
import KestrelCompiler.Proofs.Meaning.Liveness
import KestrelCompiler.Proofs.Meaning.Statement
import KestrelCompiler.Proofs.Meaning.Preservation
import KestrelCompiler.Proofs.Reading.Point
import KestrelCompiler.Proofs.Tree.Part
import KestrelCompiler.Proofs.Tree.Order
import KestrelCompiler.Proofs.Tree.Layout
import KestrelCompiler.Proofs.StringLiteral.Fault
import KestrelCompiler.Proofs.Tree.Placement
import KestrelCompiler.Proofs.Grammar.Placement
import KestrelCompiler.Proofs.Session.Consistency
import KestrelCompiler.Proofs.Grammar.Refusal
import KestrelCompiler.Proofs.Grammar.Propagation
import KestrelCompiler.Proofs.Grammar.Repair
import KestrelCompiler.Proofs.Grammar.Completion
import KestrelCompiler.Proofs.Concatenation.Displacement
import KestrelCompiler.Proofs.Concatenation.Parallel
import KestrelCompiler.Proofs.Concatenation.Rules
import KestrelCompiler.Proofs.Concatenation.Program
import KestrelCompiler.Proofs.Concatenation.Extension
import KestrelCompiler.Proofs.Linking.Frame
import KestrelCompiler.Proofs.Linking.Modularity
import KestrelCompiler.Proofs.Linking.Renumbering
import KestrelCompiler.Proofs.Faults.Judgement
import KestrelCompiler.Proofs.Faults.Types
import KestrelCompiler.Proofs.Faults.Written
import KestrelCompiler.Proofs.Faults.Expression
import KestrelCompiler.Proofs.Faults.Statement
import KestrelCompiler.Proofs.Faults.Emission
import KestrelCompiler.Proofs.Report.Caret
import KestrelCompiler.Proofs.Spacing.Spaced
import KestrelCompiler.Proofs.Spacing.Grammar
import KestrelCompiler.Proofs.Spacing.Program
import KestrelCompiler.Proofs.Reread.Node
import KestrelCompiler.Proofs.Reread.Derived
import KestrelCompiler.Proofs.Grammar.Named
import KestrelCompiler.Proofs.Reread.Program
import KestrelCompiler.Proofs.Precedence.Climb
import KestrelCompiler.Proofs.Termination.Descent
import KestrelCompiler.Proofs.Termination.Levels
import KestrelCompiler.Proofs.Termination.Recursion
import KestrelCompiler.Proofs.Termination.Stops
import KestrelCompiler.Proofs.StringLiteral.Rejection
import KestrelCompiler.Proofs.Occurrences.Occurrence
import KestrelCompiler.Proofs.Occurrences.Site
import KestrelCompiler.Proofs.Occurrences.Comparison
import KestrelCompiler.Proofs.Occurrences.ParameterName
import KestrelCompiler.Proofs.Ir.Escape
import KestrelCompiler.Proofs.Occurrences.StringLiteral
import KestrelCompiler.Proofs.Likeness.Step
import KestrelCompiler.Proofs.Likeness.Statement
import KestrelCompiler.Proofs.Likeness.Emission
import KestrelCompiler.Proofs.Likeness.Pruning
import KestrelCompiler.Proofs.Session.Peeking
import KestrelCompiler.Proofs.Outline.Quoted
import KestrelCompiler.Proofs.Outline.Lines
import KestrelCompiler.Proofs.Outline.Tree
import KestrelCompiler.Proofs.Outline.Faithful
import KestrelCompiler.Proofs.Spacing.Spelling
import KestrelCompiler.Proofs.Numerals.Literal
import KestrelCompiler.Proofs.Numerals.Kept
import KestrelCompiler.Proofs.Numerals.Respelling
import KestrelCompiler.Proofs.Numerals.Stopping
import KestrelCompiler.Proofs.Numerals.Value
import KestrelCompiler.Proofs.Disk.Tree
import KestrelCompiler.Proofs.Disk.Writing
import KestrelCompiler.Proofs.Report.History
import KestrelCompiler.Proofs.Report.Color
import KestrelCompiler.Proofs.Report.View
import KestrelCompiler.Proofs.Emission.Repetition
import KestrelCompiler.Proofs.Occurrences.Statement
import KestrelCompiler.Proofs.Occurrences.Truth
import KestrelCompiler.Proofs.Step
import KestrelCompiler.Proofs.CommandLine.Quiet
import KestrelCompiler.Proofs.CommandLine.Request
import KestrelCompiler.Proofs.CommandLine.Build
import KestrelCompiler.Proofs.CommandLine.Sources
import KestrelCompiler.Proofs.CommandLine.Check
import KestrelCompiler.Proofs.Grammar.Commas
import KestrelCompiler.Proofs.Disk.Probing
import KestrelCompiler.Proofs.Config.Search
import KestrelCompiler.Proofs.Config.Loading
import KestrelCompiler.Proofs.Emission.Acceptance
