import RubySyntax.Source
import RubySyntax.Diagnostic.Snippet
import RubySyntax.Node.Loop
import RubySyntax.Proofs.Text.Lines
import RubySyntax.Proofs.Token.Ledger
import RubySyntax.Proofs.Token.Content
import RubySyntax.Proofs.Token.Length
import RubySyntax.Proofs.Token.Line
import RubySyntax.Proofs.Token.Move
import RubySyntax.Proofs.Token.Scan
import RubySyntax.Proofs.Token.Step
import RubySyntax.Proofs.Token.Coverage
import RubySyntax.Proofs.Token.Report
import RubySyntax.Proofs.Token.Level
import RubySyntax.Proofs.Token.Reach
import RubySyntax.Proofs.Token.Position
import RubySyntax.Proofs.Token.Spelling
import RubySyntax.Proofs.Token.Veil
import RubySyntax.Proofs.Token.Alike
import RubySyntax.Proofs.Token.Transparent
import RubySyntax.Proofs.Token.Nest
import RubySyntax.Proofs.Token.Marker
import RubySyntax.Proofs.Grammar.Reading
import RubySyntax.Proofs.Grammar.Yields
import RubySyntax.Proofs.Grammar.Forward
import RubySyntax.Proofs.Grammar.Delimiter
import RubySyntax.Proofs.Grammar.Finding
import RubySyntax.Proofs.Grammar.Extent
import RubySyntax.Proofs.Grammar.Derivation
import RubySyntax.Proofs.Grammar.Horizon
import RubySyntax.Proofs.Grammar.Fault
import RubySyntax.Proofs.Grammar.Refusal
import RubySyntax.Proofs.Grammar.Later
import RubySyntax.Proofs.Grammar.Upgrade
import RubySyntax.Proofs.Grammar.Giving
import RubySyntax.Proofs.Program
import RubySyntax.Proofs.Quoting
import RubySyntax.Proofs.Tree.Everywhere
import RubySyntax.Proofs.Tree.Resolve
import RubySyntax.Proofs.Tree.Layout
import RubySyntax.Proofs.Tree.Layout.Literal
import RubySyntax.Proofs.Tree.Layout.Call
import RubySyntax.Proofs.Tree.Layout.Control
import RubySyntax.Proofs.Tree.Layout.Rules
import RubySyntax.Proofs.Tree.Layout.Program
import RubySyntax.Proofs.Tree.Tour
import RubySyntax.Proofs.Tree.Visit
import RubySyntax.Proofs.Tree.Place
import RubySyntax.Proofs.Tree.Place.Literal
import RubySyntax.Proofs.Tree.Place.Call
import RubySyntax.Proofs.Tree.Place.Control
import RubySyntax.Proofs.Tree.Place.Rules
import RubySyntax.Proofs.Tree.Place.Program
import RubySyntax.Proofs.Position
import RubySyntax.Proofs.Tree.Mark
import RubySyntax.Proofs.Tree.Account
import RubySyntax.Proofs.Tree.Account.Build
import RubySyntax.Proofs.Tree.Account.Rules
import RubySyntax.Proofs.Tree.Account.Program
import RubySyntax.Proofs.Tree.Scope
import RubySyntax.Proofs.Tree.Scope.Lexical
import RubySyntax.Proofs.Tree.Scope.Program
import RubySyntax.Proofs.Report
import RubySyntax.Proofs.Dialect
import RubySyntax.Proofs.Tree.Warning
import RubySyntax.Proofs.Tree.Look
import RubySyntax.Proofs.Tree.Capture
import RubySyntax.Proofs.Tree.Depth
import RubySyntax.Proofs.Source.Contents
import RubySyntax.Proofs.Source.Lines
import RubySyntax.Proofs.Source.Convergence
import RubySyntax.Proofs.Source.Directive
import RubySyntax.Proofs.Grammar.Blind
import RubySyntax.Proofs.Tree.Unplaced.Program
import RubySyntax.Proofs.Token.LineEnd
import RubySyntax.Proofs.Token.Number
import RubySyntax.Proofs.Tree.Integer
import RubySyntax.Proofs.Grammar.Operators
import RubySyntax.Proofs.Token.Tile
import RubySyntax.Proofs.Tree.Fill
import RubySyntax.Proofs.Tree.Fill.Rules
import RubySyntax.Proofs.Tree.Kept
import RubySyntax.Proofs.Tree.Kept.Rules
import RubySyntax.Proofs.Tree.Loop
import RubySyntax.Proofs.Token.Name
import RubySyntax.Proofs.Block
import RubySyntax.Proofs.Tree.Target
import RubySyntax.Proofs.Text.Quoted
import RubySyntax.Proofs.Tree.Literal
import RubySyntax.Proofs.Tree.Doubt
import RubySyntax.Proofs.Source.Encoding
import RubySyntax.Proofs.LineNumber
import RubySyntax.Proofs.Version
import RubySyntax.Proofs.Grammar.Termination
import RubySyntax.Proofs.Token.Assignment
