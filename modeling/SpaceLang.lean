import SpaceLang.Diagnostic.Render
import SpaceLang.Expr.Forward
import SpaceLang.Module
import SpaceLang.Proofs.Grammar.Basic
import SpaceLang.Proofs.Token.Kind
import SpaceLang.Proofs.Rule.Reads
import SpaceLang.Proofs.Rule.Phrase
import SpaceLang.Proofs.Grammar.Expr
import SpaceLang.Proofs.Grammar.Stmt
import SpaceLang.Proofs.Grammar.Class
import SpaceLang.Proofs.Grammar.Module
import SpaceLang.Proofs.Source.Place
import SpaceLang.Proofs.Source.Move
import SpaceLang.Proofs.Tree.Spans
import SpaceLang.Proofs.Diagnostic.About
import SpaceLang.Proofs.Rule.Window
import SpaceLang.Proofs.Rule.Built
import SpaceLang.Proofs.Rule.Traverse
import SpaceLang.Proofs.Rule.Blame
import SpaceLang.Proofs.Rule.Lookahead
import SpaceLang.Proofs.Grammar.Prefix
import SpaceLang.Proofs.Rule.Viable
import SpaceLang.Proofs.Token.Lexeme
import SpaceLang.Proofs.Token.Decomposition
import SpaceLang.Proofs.Token.Move
import SpaceLang.Proofs.Token.Join
import SpaceLang.Proofs.Source.Insert
import SpaceLang.Proofs.Token.Layout
import SpaceLang.Proofs.Token.Mode
import SpaceLang.Proofs.Token.Lexical
import SpaceLang.Proofs.Expr.Integer
import SpaceLang.Proofs.Space.Segments
import SpaceLang.Proofs.Tree.WellFormed
import SpaceLang.Proofs.Tree.Text
import SpaceLang.Proofs.Tree.Image
import SpaceLang.Proofs.Token.Order
import SpaceLang.Proofs.Tree.Block
import SpaceLang.Proofs.Tree.Nesting
import SpaceLang.Proofs.Tree.Append
import SpaceLang.Proofs.Rule.Relocate
import SpaceLang.Proofs.Source.Line
import SpaceLang.Proofs.Diagnostic.OneLine
import SpaceLang.Proofs.Diagnostic.Render
import SpaceLang.Proofs.Source.LineEnd
import SpaceLang.Proofs.Token.LineEnd
import SpaceLang.Proofs.Diagnostic.LineEnd
import SpaceLang.Proofs.Rule.Progress
import SpaceLang.Proofs.Rule.Session
import SpaceLang.Proofs.Expr.Chain
import SpaceLang.Proofs.Token.Reader
import SpaceLang.Proofs.Rule.MissingValue
import SpaceLang.Proofs.Diagnostic.EndOfFile
import SpaceLang.Proofs.Token.Session
import SpaceLang.Proofs.Expr.Numeral
import SpaceLang.Proofs.Space.Name
import SpaceLang.Proofs.Diagnostic.Describe
