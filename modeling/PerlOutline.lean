import PerlOutline.Element.Basic
import PerlOutline.Element.Expression
import PerlOutline.Element.Factory
import PerlOutline.Element.Node
import PerlOutline.Element.Part
import PerlOutline.Element.QualifiedName
import PerlOutline.Element.Scope
import PerlOutline.Element.Statement
import PerlOutline.Element.Variable
import PerlOutline.Element.View
import PerlOutline.Element.Visitor
import PerlOutline.Grammar.Expression
import PerlOutline.Grammar.Rule
import PerlOutline.Grammar.Run
import PerlOutline.Grammar.State
import PerlOutline.Grammar.Statement
import PerlOutline.Grammar.Table
import PerlOutline.Index.Config
import PerlOutline.Index.Diagnostic
import PerlOutline.Index.Entry
import PerlOutline.Index.Error
import PerlOutline.Index.Indexer
import PerlOutline.Index.NameKey
import PerlOutline.Index.Outline
import PerlOutline.Index.Registry
import PerlOutline.Index.Setting
import PerlOutline.Index.SharedRegistry
import PerlOutline.Index.Store
import PerlOutline.Index.StubSet
import PerlOutline.MessagePack.Reader
import PerlOutline.MessagePack.Writer
import PerlOutline.Source.FileId
import PerlOutline.Source.LineIndex
import PerlOutline.Source.Range
import PerlOutline.Stub.Basic
import PerlOutline.Stub.Declaration
import PerlOutline.Stub.Flags
import PerlOutline.Stub.Kind
import PerlOutline.Stub.Record
import PerlOutline.Stub.Summary
import PerlOutline.Syntax.Kind
import PerlOutline.Syntax.Kind.Label
import PerlOutline.Syntax.Lexeme.Basic
import PerlOutline.Syntax.Lexeme.Number
import PerlOutline.Syntax.Lexeme.Punctuation
import PerlOutline.Syntax.Lexeme.Quoted
import PerlOutline.Syntax.Lexeme.Section
import PerlOutline.Syntax.Lexeme.Variable
import PerlOutline.Syntax.Lexeme.Word
import PerlOutline.Syntax.Parse
import PerlOutline.Syntax.Placed
import PerlOutline.Syntax.Problem
import PerlOutline.Syntax.Token
import PerlOutline.Syntax.Tokenize
import PerlOutline.Syntax.Tree
import PerlOutline.Proofs.Lexing
import PerlOutline.Proofs.Following
import PerlOutline.Proofs.Reading
import PerlOutline.Proofs.Progress
import PerlOutline.Proofs.Termination
import PerlOutline.Proofs.Lossless
import PerlOutline.Proofs.Lookup
import PerlOutline.Proofs.Outlining
import PerlOutline.Proofs.Indexing
import PerlOutline.Proofs.History
import PerlOutline.Proofs.Convergence
import PerlOutline.Proofs.Bare
import PerlOutline.Proofs.Derivation
import PerlOutline.Proofs.Spacing
import PerlOutline.Proofs.Printing
import PerlOutline.Proofs.Precedence
import PerlOutline.Proofs.Ledger
import PerlOutline.Proofs.Opening
import PerlOutline.Proofs.SideBySide
import PerlOutline.Proofs.NestingLimit
import PerlOutline.Proofs.ReadBack
import PerlOutline.Proofs.Programs
import PerlOutline.Proofs.Acceptance
import PerlOutline.Proofs.RoundTrip
import PerlOutline.Proofs.Framing
import PerlOutline.Proofs.Codec
import PerlOutline.Proofs.Packages
import PerlOutline.Proofs.Gathering
import PerlOutline.Proofs.DeclaredNames
import PerlOutline.Proofs.Restoring
import PerlOutline.Proofs.FirstToken
import PerlOutline.Proofs.Layout
import PerlOutline.Proofs.Restyling
import PerlOutline.Proofs.CallDepth
import PerlOutline.Proofs.Prospect
import PerlOutline.Proofs.Survey
import PerlOutline.Proofs.Holding
import PerlOutline.Proofs.Parts
import PerlOutline.Proofs.Seam
import PerlOutline.Proofs.Locality
import PerlOutline.Proofs.LastToken
import PerlOutline.Proofs.Composition
import PerlOutline.Proofs.Building
import PerlOutline.Proofs.Brackets
import PerlOutline.Proofs.QualifiedNames
import PerlOutline.Proofs.Registration
import PerlOutline.Proofs.Independence
import PerlOutline.Proofs.Refusal
import PerlOutline.Proofs.Reporting
import PerlOutline.Proofs.InvalidTokens
import PerlOutline.Proofs.Detaching
import PerlOutline.Proofs.Nameless
import PerlOutline.Proofs.Accounting
import PerlOutline.Proofs.Sections
import PerlOutline.Proofs.GivingUp
import PerlOutline.Proofs.Swallowing
import PerlOutline.Proofs.DeepNesting
import PerlOutline.Proofs.Dispatch
import PerlOutline.Proofs.Placement
import PerlOutline.Proofs.Positions
import PerlOutline.Proofs.ShortestForm
import PerlOutline.Proofs.Leading
import PerlOutline.Proofs.Tightness
