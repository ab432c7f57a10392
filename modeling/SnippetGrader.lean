import SnippetGrader.Evaluation.Access
import SnippetGrader.Evaluation.Arithmetic
import SnippetGrader.Evaluation.Bindings
import SnippetGrader.Evaluation.Builtin
import SnippetGrader.Evaluation.Equality
import SnippetGrader.Evaluation.Error
import SnippetGrader.Evaluation.Evaluator
import SnippetGrader.Evaluation.Interpreter
import SnippetGrader.Evaluation.Library.Arguments
import SnippetGrader.Evaluation.Library.Containers
import SnippetGrader.Evaluation.Library.Conversions
import SnippetGrader.Evaluation.Library.Iteration
import SnippetGrader.Evaluation.Library.Numbers
import SnippetGrader.Evaluation.Library.Routines
import SnippetGrader.Evaluation.Library.Sorting
import SnippetGrader.Evaluation.Library.Strings
import SnippetGrader.Evaluation.Operators
import SnippetGrader.Evaluation.Order
import SnippetGrader.Evaluation.Scope
import SnippetGrader.Evaluation.Session
import SnippetGrader.Evaluation.Value
import SnippetGrader.Evaluation.ValueText
import SnippetGrader.Grading.Comparison
import SnippetGrader.Grading.Condition
import SnippetGrader.Grading.Grade
import SnippetGrader.Grading.Message
import SnippetGrader.Grading.Mismatch
import SnippetGrader.Grading.NormalizedCall
import SnippetGrader.Grading.Options
import SnippetGrader.Grading.Outcome
import SnippetGrader.Grading.Report
import SnippetGrader.Grading.Resolver
import SnippetGrader.Json.Basic
import SnippetGrader.Json.Reader
import SnippetGrader.Json.Record
import SnippetGrader.Number.Binary64
import SnippetGrader.Number.Notation
import SnippetGrader.Number.Reader
import SnippetGrader.Number.Shortest
import SnippetGrader.Number.Word
import SnippetGrader.Parsing.Cursor
import SnippetGrader.Parsing.Expression
import SnippetGrader.Parsing.Program
import SnippetGrader.Parsing.Statement
import SnippetGrader.Proofs.Comparison.Acceptance
import SnippetGrader.Proofs.Comparison.Exposure
import SnippetGrader.Proofs.Comparison.Invariance
import SnippetGrader.Proofs.Comparison.NormalForms
import SnippetGrader.Proofs.Comparison.Positions
import SnippetGrader.Proofs.Comparison.Reflexivity
import SnippetGrader.Proofs.Comparison.Soundness
import SnippetGrader.Proofs.Comparison.Steps
import SnippetGrader.Proofs.Comparison.Structural
import SnippetGrader.Proofs.Comparison.Symmetry
import SnippetGrader.Proofs.Evaluation.Congruence
import SnippetGrader.Proofs.Evaluation.Displays
import SnippetGrader.Proofs.Evaluation.Frames
import SnippetGrader.Proofs.Evaluation.Growth
import SnippetGrader.Proofs.Evaluation.Lengths
import SnippetGrader.Proofs.Evaluation.Limits
import SnippetGrader.Proofs.Evaluation.Routines
import SnippetGrader.Proofs.Evaluation.Rules
import SnippetGrader.Proofs.Evaluation.Termination
import SnippetGrader.Proofs.Number.Notation
import SnippetGrader.Proofs.Number.Parts
import SnippetGrader.Proofs.Number.Reading
import SnippetGrader.Proofs.Number.Rounding
import SnippetGrader.Proofs.Number.Shortest
import SnippetGrader.Proofs.Number.Unsigned
import SnippetGrader.Proofs.Parsing.DisplayForms
import SnippetGrader.Proofs.Parsing.Expressions
import SnippetGrader.Proofs.Parsing.Height
import SnippetGrader.Proofs.Parsing.Invariants
import SnippetGrader.Proofs.Parsing.LambdaForms
import SnippetGrader.Proofs.Parsing.Levels
import SnippetGrader.Proofs.Parsing.OperatorForms
import SnippetGrader.Proofs.Parsing.Parameters
import SnippetGrader.Proofs.Parsing.Programs
import SnippetGrader.Proofs.Parsing.Reads
import SnippetGrader.Proofs.Parsing.Recovery
import SnippetGrader.Proofs.Parsing.RoundTrip
import SnippetGrader.Proofs.Parsing.Statements
import SnippetGrader.Proofs.Parsing.TrailerForms
import SnippetGrader.Proofs.Parsing.Yields
import SnippetGrader.Proofs.Signature.Binding
import SnippetGrader.Proofs.Signature.Conservation
import SnippetGrader.Proofs.Signature.Naturality
import SnippetGrader.Proofs.Signature.Phases
import SnippetGrader.Proofs.Signature.Receiver
import SnippetGrader.Proofs.Signature.Respelling
import SnippetGrader.Proofs.Signature.WellFormed
import SnippetGrader.Proofs.Source.Renaming
import SnippetGrader.Proofs.Text.Decoding
import SnippetGrader.Proofs.Text.Encoding
import SnippetGrader.Proofs.Text.Search
import SnippetGrader.Proofs.Token.Lexing
import SnippetGrader.Proofs.Token.Literals
import SnippetGrader.Proofs.Token.Numerals
import SnippetGrader.Proofs.Token.Spacing
import SnippetGrader.Proofs.Token.Spelling
import SnippetGrader.Proofs.Tree.Children
import SnippetGrader.Proofs.Tree.ErasedText
import SnippetGrader.Proofs.Tree.Erasure
import SnippetGrader.Proofs.Tree.Grammar
import SnippetGrader.Proofs.Tree.Legible
import SnippetGrader.Proofs.Tree.Lexemes
import SnippetGrader.Proofs.Tree.Phrases
import SnippetGrader.Proofs.Tree.Plain
import SnippetGrader.Signature.Basic
import SnippetGrader.Signature.Binding
import SnippetGrader.Sorting.Basic
import SnippetGrader.Sorting.Quick
import SnippetGrader.Sorting.Runs
import SnippetGrader.Sorting.Short
import SnippetGrader.Sorting.Stable
import SnippetGrader.Source.Diagnostic
import SnippetGrader.Source.File
import SnippetGrader.Source.Span
import SnippetGrader.Text.Blank
import SnippetGrader.Text.Case
import SnippetGrader.Text.CaseTables
import SnippetGrader.Text.Hidden
import SnippetGrader.Text.HiddenTables
import SnippetGrader.Text.Quoted
import SnippetGrader.Text.Search
import SnippetGrader.Text.Utf8
import SnippetGrader.Token.Basic
import SnippetGrader.Token.Lexer
import SnippetGrader.Token.Literal
import SnippetGrader.Token.Scanner
import SnippetGrader.Tree.Basic
import SnippetGrader.Tree.Node
import SnippetGrader.Tree.Size
import SnippetGrader.Tree.Text
import SnippetGrader.Proofs.Comparison.Defaults
import SnippetGrader.Proofs.Comparison.Reordering
import SnippetGrader.Proofs.Number.Negation
import SnippetGrader.Proofs.Evaluation.Data
import SnippetGrader.Proofs.Evaluation.DataText
import SnippetGrader.Proofs.Evaluation.ReadBack
import SnippetGrader.Proofs.Number.Nearest
import SnippetGrader.Proofs.Evaluation.Equivalence
import SnippetGrader.Proofs.Evaluation.StrictEquality
import SnippetGrader.Proofs.Evaluation.Ordering
import SnippetGrader.Proofs.Evaluation.ModularPowers
import SnippetGrader.Proofs.Evaluation.Slices
import SnippetGrader.Proofs.Comparison.Lines
import SnippetGrader.Proofs.Evaluation.Ranges
import SnippetGrader.Proofs.Token.Rounds
import SnippetGrader.Proofs.Token.Layout
import SnippetGrader.Proofs.Token.Coverage
import SnippetGrader.Proofs.Token.LineEndings
import SnippetGrader.Proofs.Parsing.Agreement
import SnippetGrader.Proofs.Parsing.ExpressionAgreement
import SnippetGrader.Proofs.Parsing.StatementAgreement
import SnippetGrader.Proofs.Parsing.LineEndings
import SnippetGrader.Proofs.Token.SameLine
import SnippetGrader.Proofs.Token.BlankLines
import SnippetGrader.Proofs.Token.Positions
import SnippetGrader.Proofs.Source.Lines
import SnippetGrader.Proofs.Source.Diagnostics
import SnippetGrader.Proofs.Parsing.BlankLines
import SnippetGrader.Proofs.Parsing.Moves
import SnippetGrader.Proofs.Parsing.ExpressionMoves
import SnippetGrader.Proofs.Parsing.StatementMoves
import SnippetGrader.Proofs.Parsing.Progress
import SnippetGrader.Proofs.Parsing.FaultPlaces
import SnippetGrader.Proofs.Parsing.Earliest
import SnippetGrader.Proofs.Sorting.Stability
import SnippetGrader.Proofs.Sorting.Merging
import SnippetGrader.Proofs.Sorting.Short
import SnippetGrader.Proofs.Sorting.Runs
import SnippetGrader.Proofs.Sorting.Quick
import SnippetGrader.Proofs.Evaluation.Sorting
import SnippetGrader.Proofs.Evaluation.Unpacking
import SnippetGrader.Proofs.Evaluation.Frozen
import SnippetGrader.Proofs.Signature.Leftovers
import SnippetGrader.Proofs.Evaluation.Dicts
import SnippetGrader.Proofs.Evaluation.DictForms
import SnippetGrader.Proofs.Grading.Resolution
import SnippetGrader.Proofs.Source.FaultCounts
import SnippetGrader.Proofs.Parsing.Composition
import SnippetGrader.Proofs.Parsing.Productions
import SnippetGrader.Proofs.Parsing.Nesting
