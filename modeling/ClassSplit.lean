import ClassSplit.CommandLine.Arguments
import ClassSplit.CommandLine.Files
import ClassSplit.CommandLine.Run
import ClassSplit.Datum.Basic
import ClassSplit.Datum.Decode
import ClassSplit.Decimal.Shortest
import ClassSplit.Delegation.Basic
import ClassSplit.Delegation.Patch
import ClassSplit.Delegation.Reference
import ClassSplit.Delegation.Removal
import ClassSplit.Extraction.Basic
import ClassSplit.Extraction.Error
import ClassSplit.Extraction.NewSource
import ClassSplit.Extraction.Outcome
import ClassSplit.Extraction.Request
import ClassSplit.FreshName
import ClassSplit.Java.Arena
import ClassSplit.Java.Grammar.Combinator
import ClassSplit.Java.Grammar.Declarations
import ClassSplit.Java.Grammar.Expressions
import ClassSplit.Java.Grammar.Statements
import ClassSplit.Java.Grammar.Types
import ClassSplit.Java.Kind
import ClassSplit.Java.Lexeme
import ClassSplit.Java.Lexer
import ClassSplit.Java.Name
import ClassSplit.Java.Source
import ClassSplit.Java.Tree
import ClassSplit.Json.Reader
import ClassSplit.Json.Text
import ClassSplit.Main
import ClassSplit.Model.Basic
import ClassSplit.Model.Exchange
import ClassSplit.Model.Facts
import ClassSplit.Model.OfTree
import ClassSplit.NameMap
import ClassSplit.NameSet
import ClassSplit.NewClass.Accessor
import ClassSplit.NewClass.Field
import ClassSplit.NewClass.Method
import ClassSplit.Patch.Basic
import ClassSplit.Patch.Splice
import ClassSplit.Path
import ClassSplit.Plan.Issue
import ClassSplit.Plan.OtherInstance
import ClassSplit.Plan.Repair
import ClassSplit.Plan.Verdict
import ClassSplit.Proofs.CommandLine.BothFiles
import ClassSplit.Proofs.CommandLine.Files
import ClassSplit.Proofs.CommandLine.Run
import ClassSplit.Proofs.Delegation.Accounts
import ClassSplit.Proofs.Delegation.Basic
import ClassSplit.Proofs.Delegation.Body
import ClassSplit.Proofs.Delegation.Deletion
import ClassSplit.Proofs.Delegation.Failure
import ClassSplit.Proofs.Delegation.Leftover
import ClassSplit.Proofs.Delegation.Meaning
import ClassSplit.Proofs.Delegation.NestedType
import ClassSplit.Proofs.Delegation.Patch
import ClassSplit.Proofs.Delegation.Reference
import ClassSplit.Proofs.Delegation.Removal
import ClassSplit.Proofs.Delegation.Rerouted
import ClassSplit.Proofs.Delegation.ReroutedBlock
import ClassSplit.Proofs.Delegation.Routed
import ClassSplit.Proofs.Delegation.RoutedBody
import ClassSplit.Proofs.Delegation.Setter
import ClassSplit.Proofs.Delegation.Shared
import ClassSplit.Proofs.Delegation.Simulation
import ClassSplit.Proofs.Delegation.Stub
import ClassSplit.Proofs.Delegation.Update
import ClassSplit.Proofs.Delegation.Value
import ClassSplit.Proofs.Extraction.Change
import ClassSplit.Proofs.Extraction.Failure
import ClassSplit.Proofs.Extraction.Helper
import ClassSplit.Proofs.Extraction.Members
import ClassSplit.Proofs.Extraction.NewClass
import ClassSplit.Proofs.Extraction.Overload
import ClassSplit.Proofs.Extraction.Respelling
import ClassSplit.Proofs.Extraction.StaticAccess
import ClassSplit.Proofs.Extraction.Steps
import ClassSplit.Proofs.Java.Arena
import ClassSplit.Proofs.Java.Cloning
import ClassSplit.Proofs.Java.Conversion
import ClassSplit.Proofs.Java.Copy
import ClassSplit.Proofs.Java.Execution
import ClassSplit.Proofs.Java.Forest
import ClassSplit.Proofs.Java.Grammar.Body
import ClassSplit.Proofs.Java.Grammar.Combinator
import ClassSplit.Proofs.Java.Grammar.Expression
import ClassSplit.Proofs.Java.Grammar.Operand
import ClassSplit.Proofs.Java.Grammar.Reading
import ClassSplit.Proofs.Java.Grammar.Rules
import ClassSplit.Proofs.Java.Grammar.Statement
import ClassSplit.Proofs.Java.Integer
import ClassSplit.Proofs.Java.Isolation
import ClassSplit.Proofs.Java.Joined
import ClassSplit.Proofs.Java.Leaf
import ClassSplit.Proofs.Java.Lexeme
import ClassSplit.Proofs.Java.Lexer
import ClassSplit.Proofs.Java.Lexing
import ClassSplit.Proofs.Java.Lowering
import ClassSplit.Proofs.Java.Name
import ClassSplit.Proofs.Java.Number
import ClassSplit.Proofs.Java.Phrase
import ClassSplit.Proofs.Java.Pruning
import ClassSplit.Proofs.Java.Site
import ClassSplit.Proofs.Java.Sound
import ClassSplit.Proofs.Java.Spacing
import ClassSplit.Proofs.Java.Token
import ClassSplit.Proofs.Java.Traversal
import ClassSplit.Proofs.Java.Tree
import ClassSplit.Proofs.Java.Written
import ClassSplit.Proofs.Model.Facts
import ClassSplit.Proofs.Model.Lookup
import ClassSplit.Proofs.Model.OfTree
import ClassSplit.Proofs.Model.Order
import ClassSplit.Proofs.Model.Parameters
import ClassSplit.Proofs.Model.Respelling
import ClassSplit.Proofs.Model.Signature
import ClassSplit.Proofs.NewClass.Accessor
import ClassSplit.Proofs.NewClass.AccessorText
import ClassSplit.Proofs.NewClass.Cell
import ClassSplit.Proofs.NewClass.Edit
import ClassSplit.Proofs.NewClass.Field
import ClassSplit.Proofs.NewClass.Method
import ClassSplit.Proofs.NewClass.Naming
import ClassSplit.Proofs.NewClass.Reuse
import ClassSplit.Proofs.NewClass.Rewording
import ClassSplit.Proofs.NewClass.Source
import ClassSplit.Proofs.NewClass.Splice
import ClassSplit.Proofs.Patch.Conflict
import ClassSplit.Proofs.Patch.Content
import ClassSplit.Proofs.Patch.NormalOrder
import ClassSplit.Proofs.Patch.Outermost
import ClassSplit.Proofs.Patch.Rendering
import ClassSplit.Proofs.Patch.Splice
import ClassSplit.Proofs.Patch.Weaving
import ClassSplit.Proofs.Path
import ClassSplit.Proofs.Plan.CallBack
import ClassSplit.Proofs.Plan.FieldTypes
import ClassSplit.Proofs.Plan.FieldUse
import ClassSplit.Proofs.Plan.Repair
import ClassSplit.Proofs.Plan.Respelling
import ClassSplit.Proofs.Plan.Rounds
import ClassSplit.Proofs.Plan.Verdict
import ClassSplit.Proofs.Scope.Binding
import ClassSplit.Proofs.Scope.Statement
import ClassSplit.Proofs.Scope.Variable
import ClassSplit.Proofs.Settings.Agreement
import ClassSplit.Proofs.Settings.Disclosure
import ClassSplit.Proofs.Settings.Redaction
import ClassSplit.Proofs.Signature.Canonical
import ClassSplit.Proofs.Signature.Closure
import ClassSplit.Proofs.Signature.Collection
import ClassSplit.Proofs.Signature.Divisions
import ClassSplit.Proofs.Signature.Erasure
import ClassSplit.Proofs.Signature.Formatting
import ClassSplit.Proofs.Signature.Inside
import ClassSplit.Proofs.Signature.Lexemes
import ClassSplit.Proofs.Signature.Matching
import ClassSplit.Proofs.Signature.Modifiers
import ClassSplit.Proofs.Signature.Nesting
import ClassSplit.Proofs.Signature.Parts
import ClassSplit.Proofs.Signature.Representatives
import ClassSplit.Proofs.Signature.Spelling
import ClassSplit.Proofs.Signature.TypeSpelling
import ClassSplit.Proofs.Signature.TypeText
import ClassSplit.Proofs.Text.Identifiers
import ClassSplit.Proofs.Text.InOrder
import ClassSplit.Proofs.Text.Indent
import ClassSplit.Proofs.Text.Layout
import ClassSplit.Proofs.Text.Offset
import ClassSplit.Proofs.Text.Solid
import ClassSplit.Proofs.Text.Words
import ClassSplit.Scope.Binding
import ClassSplit.Scope.Facts
import ClassSplit.Scope.Reference
import ClassSplit.Settings.Basic
import ClassSplit.Settings.File
import ClassSplit.Settings.LogFilter
import ClassSplit.Settings.Schema
import ClassSplit.Signature.Basic
import ClassSplit.Signature.Collection
import ClassSplit.Signature.Reader
import ClassSplit.Text.Blank
import ClassSplit.Text.Case
import ClassSplit.Text.Layout
import ClassSplit.Text.Letter
import ClassSplit.Text.Offset
import ClassSplit.Text.Quoted
import ClassSplit.Text.Search
import ClassSplit.Text.Span
import ClassSplit.Text.Words
import ClassSplit.Toml.Document
import ClassSplit.Toml.Scalar
import ClassSplit.Toml.Table
