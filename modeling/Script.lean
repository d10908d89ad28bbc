import Script.Main
import Script.Store.Equality
import Script.Proofs.Store.Returns
import Script.Proofs.Eval.Direct
import Script.Proofs.Eval.Agreement
import Script.Proofs.Eval.DirectStyle
import Script.Proofs.Grammar
import Script.Proofs.Parser.Run
import Script.Proofs.Parser.Soundness
import Script.Proofs.Parser.Gives
import Script.Proofs.Parser.Completeness
import Script.Proofs.Parser.Language
import Script.Proofs.Lexeme.Reading
import Script.Proofs.Lexeme.Spelling
import Script.Proofs.Syntax.Spelling
import Script.Proofs.Syntax.Derivation
import Script.Proofs.Syntax.RoundTrip
import Script.Proofs.Parser.Nesting
import Script.Proofs.Parser.Towers
import Script.Proofs.Syntax.Path
import Script.Proofs.Machine
import Script.Proofs.Machine.Runs
import Script.Proofs.Store.Authority
import Script.Proofs.Machine.Authority
import Script.Proofs.Eval.Confinement
import Script.Proofs.Store.KeepsReturns
import Script.Proofs.Eval.Returns
import Script.Proofs.Session.WholeProgram
import Script.Proofs.Lexeme.Feeding
import Script.Proofs.Parser.Locality
import Script.Proofs.Text.Utf8
import Script.Proofs.File.Window
import Script.Proofs.File.Streaming
import Script.Proofs.Lexeme.Denotation
import Script.Proofs.Lexeme.Tiling
import Script.HashTable
import Script.Proofs.HashTable
import Script.Proofs.Eval.Outlines
import Script.Proofs.Machine.Returns
import Script.Proofs.Session.History
import Script.Proofs.Lexeme.Lines
import Script.Proofs.Parser.Repetition
import Script.Proofs.Parser.Shift
import Script.Proofs.Parser.Completable
import Script.Proofs.Parser.Joining
import Script.Proofs.Data.RoundTrip
import Script.Proofs.Session.Containers
import Script.Proofs.Lexeme.Order
import Script.Proofs.Syntax.Layout
import Script.Proofs.Parser.Blame
import Script.Proofs.Eval.Blame
import Script.Proofs.File.Label
import Script.Proofs.Store.Rendering
import Script.Proofs.Lexeme.Prefix
import Script.Proofs.Parser.Pulling
import Script.Proofs.Parser.Pulling.State
import Script.Proofs.Parser.Pulling.Agreement
import Script.Proofs.Parser.Pulling.Parsers
import Script.Proofs.Parser.LexicalErrors
import Script.Proofs.Store.Actions
import Script.Proofs.Store.Ownership
import Script.Proofs.Store.Boundaries
import Script.Proofs.Store.Places
import Script.Proofs.Operation
import Script.Proofs.Eval.Indexing
import Script.Proofs.Store.Unfolding
import Script.Proofs.Store.Equality
import Script.Proofs.Lexeme.Literals
import Script.Proofs.Eval.Arithmetic
import Script.Proofs.Eval.CallLimit
import Script.Proofs.Machine.Calls
import Script.Proofs.Session.Calls
import Script.Proofs.Store.Collapse
import Script.Proofs.Eval.Collapse
import Script.Proofs.Eval.Chains
import Script.Proofs.Lexeme.Comments
import Script.Proofs.Parser.Comments
import Script.Proofs.Store.Values
import Script.Proofs.Machine.Values
import Script.Proofs.Session.Values
import Script.Proofs.Parser.Pulling.Parallel
import Script.Proofs.Parser.Pulling.Depth
