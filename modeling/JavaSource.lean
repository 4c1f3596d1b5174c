import JavaSource.Annotation.Edit
import JavaSource.Annotation.Shape
import JavaSource.Annotation.Value
import JavaSource.ClassEntry
import JavaSource.ClassKind
import JavaSource.CommandLine.Command
import JavaSource.CommandLine.Report
import JavaSource.CommandLine.Words
import JavaSource.Decimal.FloatText
import JavaSource.Decimal.Shortest
import JavaSource.Declaration.Assembly
import JavaSource.Declaration.Basic
import JavaSource.Declaration.Build
import JavaSource.Declaration.Decode
import JavaSource.Declaration.Error
import JavaSource.Declaration.Members
import JavaSource.Declaration.Placement
import JavaSource.Declaration.Units
import JavaSource.Declaration.Values
import JavaSource.Error
import JavaSource.FileTree
import JavaSource.Identifier
import JavaSource.Ieee.Basic
import JavaSource.Ieee.Rounding
import JavaSource.JavaType.Basic
import JavaSource.JavaType.Construction
import JavaSource.JavaType.Outline
import JavaSource.Layout
import JavaSource.Main
import JavaSource.Member
import JavaSource.Model.Basic
import JavaSource.Model.Definition
import JavaSource.Model.Descent
import JavaSource.Model.Names
import JavaSource.Model.Reference
import JavaSource.Model.Types
import JavaSource.Modifier
import JavaSource.Proofs.CommandLine.Agreement
import JavaSource.Proofs.Declaration.Annotating
import JavaSource.Proofs.Declaration.Carried
import JavaSource.Proofs.Declaration.Filling
import JavaSource.Proofs.Declaration.Look
import JavaSource.Proofs.Declaration.LookValue
import JavaSource.Proofs.Declaration.Mirror
import JavaSource.Proofs.Declaration.Placing
import JavaSource.Proofs.Declaration.Reordered
import JavaSource.Proofs.Declaration.Run
import JavaSource.Proofs.Declaration.SameElements
import JavaSource.Proofs.Declaration.SameShapes
import JavaSource.Proofs.Declaration.Shapes
import JavaSource.Proofs.Declaration.Strict
import JavaSource.Proofs.Declaration.Twin
import JavaSource.Proofs.Declaration.TwinMember
import JavaSource.Proofs.Declaration.TwinValue
import JavaSource.Proofs.Declaration.Unresolved
import JavaSource.Proofs.Declaration.Work
import JavaSource.Proofs.Model.Address
import JavaSource.Proofs.Model.Descent
import JavaSource.Proofs.Model.Enclosing
import JavaSource.Proofs.Model.Frame
import JavaSource.Proofs.Model.Growth
import JavaSource.Proofs.Model.Lookup
import JavaSource.Proofs.Model.MemberBuilders
import JavaSource.Proofs.Model.MemberStep
import JavaSource.Proofs.Model.Operation
import JavaSource.Proofs.Model.Placeholder
import JavaSource.Proofs.Model.Step
import JavaSource.Proofs.Model.Tables
import JavaSource.Proofs.Model.WellFormed
import JavaSource.Proofs.Renaming.Basic
import JavaSource.Proofs.Renaming.Corresponding
import JavaSource.Proofs.Renaming.Counterpart
import JavaSource.Proofs.Renaming.Events
import JavaSource.Proofs.Renaming.Shape
import JavaSource.Proofs.Renaming.Unit
import JavaSource.Proofs.Rendering.Imports
import JavaSource.Proofs.Rendering.Isolation
import JavaSource.Proofs.Rendering.MemberWeave
import JavaSource.Proofs.Rendering.Mention
import JavaSource.Proofs.Rendering.Part
import JavaSource.Proofs.Rendering.ShortNames
import JavaSource.Proofs.Rendering.Usage
import JavaSource.Proofs.Rendering.Visible
import JavaSource.Proofs.Rendering.Weave
import JavaSource.Rendering.ClassEvents
import JavaSource.Rendering.Event
import JavaSource.Rendering.Line
import JavaSource.Rendering.MemberEvents
import JavaSource.Rendering.Resolution
import JavaSource.Rendering.Source
import JavaSource.Rendering.SourceFile
import JavaSource.Rendering.Spacing
import JavaSource.Rendering.SyntaxEvents
import JavaSource.Rendering.Usage
import JavaSource.Syntax.Expr
import JavaSource.Syntax.Stmt
import JavaSource.Table
import JavaSource.Text.Alphabetic
import JavaSource.Text.Blank
import JavaSource.Text.ExtendingMark
import JavaSource.Text.Numeric
import JavaSource.Text.Quoted
import JavaSource.Text.Ranges
import JavaSource.Text.Split
import JavaSource.Text.Unprintable
import JavaSource.Toml.Basic
import JavaSource.Toml.DateTime
import JavaSource.Toml.Digits
import JavaSource.Toml.Document
import JavaSource.Toml.Quoted
import JavaSource.Toml.Record
import JavaSource.Toml.Scalar
import JavaSource.Toml.Statement
import JavaSource.Proofs.Declaration.Landing
import JavaSource.Proofs.Declaration.Closed
import JavaSource.Proofs.Declaration.EarlyShapes
import JavaSource.Proofs.Declaration.Reading
import JavaSource.Proofs.Declaration.Valid
import JavaSource.Proofs.Rendering.UnitPath
import JavaSource.Proofs.CommandLine.OutputFiles
import JavaSource.Proofs.Annotation.Refusing
import JavaSource.Proofs.Annotation.Setting
import JavaSource.Proofs.Annotation.Conforming
import JavaSource.Proofs.Model.Call
import JavaSource.Proofs.Model.Failing
import JavaSource.Proofs.Model.Handle
import JavaSource.Proofs.Rendering.Lines
import JavaSource.Proofs.Rendering.WellNested
import JavaSource.Proofs.Rendering.Scope
import JavaSource.Proofs.Text.Splitting
import JavaSource.Proofs.Text.Literal
import JavaSource.Proofs.Model.Naming
import JavaSource.Proofs.Model.NameLoops
import JavaSource.Proofs.Model.BinaryNames
import JavaSource.Proofs.Model.Referring
import JavaSource.Proofs.Rendering.Placeholders
import JavaSource.Proofs.Rendering.Spacing
import JavaSource.Proofs.Text.Runs
import JavaSource.Proofs.Rendering.OneLine
import JavaSource.Proofs.Expression.Plain
import JavaSource.Proofs.Expression.Reader
import JavaSource.Proofs.Expression.ReadBack
import JavaSource.Proofs.Expression.ArrayCreation
import JavaSource.Proofs.Model.Erasure
import JavaSource.Proofs.Model.EntryInvariant
import JavaSource.Proofs.Model.MemberTables
import JavaSource.Proofs.Model.FieldTable
import JavaSource.Proofs.Annotation.MemberGraph
import JavaSource.Proofs.Annotation.Derivation
import JavaSource.Proofs.Text.OuterBrackets
import JavaSource.Proofs.Rendering.Spelling
import JavaSource.Proofs.Expression.OuterParentheses
import JavaSource.Proofs.Expression.Condition
import JavaSource.Proofs.Declaration.PlainValues
