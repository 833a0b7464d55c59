import Classwright.Code.Comment
import Classwright.Code.Expression
import Classwright.Code.Layout
import Classwright.Code.Printer
import Classwright.Code.Syntax
import Classwright.Command.Arguments
import Classwright.Command.Inspect
import Classwright.Command.ModelView
import Classwright.Command.Run
import Classwright.Command.Style
import Classwright.Digest.Sip
import Classwright.Disk.Basic
import Classwright.Disk.Path
import Classwright.Disk.Tree
import Classwright.Emit.Copy
import Classwright.Emit.Equality
import Classwright.Emit.Hash
import Classwright.Emit.Names
import Classwright.Emit.Order
import Classwright.Emit.Support
import Classwright.Emit.Visitor
import Classwright.Generate
import Classwright.Glob.Pattern
import Classwright.Glob.Search
import Classwright.Hint.Basic
import Classwright.Hint.Document
import Classwright.Instance.Basic
import Classwright.Instance.Copy
import Classwright.Instance.Equality
import Classwright.Instance.Hash
import Classwright.Instance.Order
import Classwright.Instance.Visit
import Classwright.Json.Basic
import Classwright.Json.Decode
import Classwright.Json.Fault
import Classwright.Json.Hash
import Classwright.Json.Order
import Classwright.Json.Printer
import Classwright.Json.Reader
import Classwright.Json.Scanner
import Classwright.Json.Skip
import Classwright.Json.Walk
import Classwright.Main
import Classwright.Model.Basic
import Classwright.Model.Build
import Classwright.Model.Classify
import Classwright.Number.Binary64
import Classwright.Number.Decimal
import Classwright.Proofs.Code.Blocks
import Classwright.Proofs.Code.Comments
import Classwright.Proofs.Code.Grammar
import Classwright.Proofs.Code.Indentation
import Classwright.Proofs.Code.Parser
import Classwright.Proofs.Code.Reading
import Classwright.Proofs.Code.Scoping
import Classwright.Proofs.Code.Tokens
import Classwright.Proofs.Command.Check
import Classwright.Proofs.Command.Steps
import Classwright.Proofs.Disk.Log
import Classwright.Proofs.Disk.Places
import Classwright.Proofs.Emit.Copy
import Classwright.Proofs.Emit.EqualValues
import Classwright.Proofs.Emit.Equality
import Classwright.Proofs.Emit.Hash
import Classwright.Proofs.Emit.Lockstep
import Classwright.Proofs.Emit.Names
import Classwright.Proofs.Emit.Order
import Classwright.Proofs.Emit.OrderValues
import Classwright.Proofs.Emit.Parameters
import Classwright.Proofs.Emit.Scoping
import Classwright.Proofs.Emit.VisitValues
import Classwright.Proofs.Emit.Visitor
import Classwright.Proofs.Generate.Constructors
import Classwright.Proofs.Generate.Members
import Classwright.Proofs.Generate.Names
import Classwright.Proofs.Hint.Lenient
import Classwright.Proofs.Instance.Canonical
import Classwright.Proofs.Instance.Closed
import Classwright.Proofs.Instance.Copy
import Classwright.Proofs.Instance.Decorations
import Classwright.Proofs.Instance.Equality
import Classwright.Proofs.Instance.Hash
import Classwright.Proofs.Instance.KeyOrder
import Classwright.Proofs.Instance.Lockstep
import Classwright.Proofs.Instance.Lookups
import Classwright.Proofs.Instance.Order
import Classwright.Proofs.Instance.Positions
import Classwright.Proofs.Instance.Rewriting
import Classwright.Proofs.Instance.Scalars
import Classwright.Proofs.Instance.Visit
import Classwright.Proofs.Json.Hash
import Classwright.Proofs.Json.Induction
import Classwright.Proofs.Json.Order
import Classwright.Proofs.Json.RoundTrip
import Classwright.Proofs.Machine.Basic
import Classwright.Proofs.Machine.Kept
import Classwright.Proofs.Machine.Owned
import Classwright.Proofs.Machine.Rules
import Classwright.Proofs.Machine.Substitution
import Classwright.Proofs.Machine.Trees
import Classwright.Proofs.Machine.Updates
import Classwright.Proofs.Model.Build
import Classwright.Proofs.Model.Chain
import Classwright.Proofs.Model.ClassNames
import Classwright.Proofs.Model.Faults
import Classwright.Proofs.Model.Inlining
import Classwright.Proofs.Model.Locality
import Classwright.Proofs.Model.Renaming
import Classwright.Proofs.Model.Reordering
import Classwright.Proofs.Model.Representation
import Classwright.Proofs.Model.Termination
import Classwright.Proofs.Model.ValueTypes
import Classwright.Proofs.Number.Rounding
import Classwright.Proofs.Schema.Accepted
import Classwright.Proofs.Schema.Reader
import Classwright.Proofs.Schema.RoundTrip
import Classwright.Proofs.Schema.Written
import Classwright.Proofs.Text.CapitalWords
import Classwright.Proofs.Text.CodeUnits
import Classwright.Proofs.Text.Words
import Classwright.Schema.Basic
import Classwright.Schema.Printer
import Classwright.Schema.Reader
import Classwright.Settings
import Classwright.Shape
import Classwright.Text.Alphanumeric
import Classwright.Text.LetterCase
import Classwright.Text.Lines
import Classwright.Text.Quoted
import Classwright.Text.Stretch
import Classwright.Text.Visible
import Classwright.Text.Words
import Classwright.Warning
