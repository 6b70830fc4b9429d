import FormEdits.Assoc
import FormEdits.Command.Arguments
import FormEdits.Command.Help
import FormEdits.Command.Run
import FormEdits.Edit.Basic
import FormEdits.Edit.QuadLines
import FormEdits.Edit.Report
import FormEdits.Edit.Sparql
import FormEdits.Edit.Statement
import FormEdits.Edit.Store
import FormEdits.Error
import FormEdits.Form.Encoded
import FormEdits.Form.Submission
import FormEdits.Form.Value
import FormEdits.Json.Read
import FormEdits.Json.Written
import FormEdits.Key.Classify
import FormEdits.Key.Declaration
import FormEdits.Key.Designator
import FormEdits.Key.Modifiers
import FormEdits.Key.Name
import FormEdits.Key.PrefixLine
import FormEdits.Key.Template
import FormEdits.Macros.Expand
import FormEdits.Macros.Reference
import FormEdits.Macros.Resolve
import FormEdits.Macros.Supply
import FormEdits.Macros.Table
import FormEdits.Main
import FormEdits.Number.Decimal
import FormEdits.Number.Double
import FormEdits.Number.Integer
import FormEdits.Number.Numeral
import FormEdits.Number.Shortest
import FormEdits.Path
import FormEdits.Rdf.Datatype
import FormEdits.Rdf.LanguageTag
import FormEdits.Rdf.Term
import FormEdits.Rdf.Written
import FormEdits.Session.Basic
import FormEdits.Session.Special
import FormEdits.Settings.Basic
import FormEdits.Settings.Shared
import FormEdits.Submission
import FormEdits.Text.Base64
import FormEdits.Text.Basic
import FormEdits.Text.Blank
import FormEdits.Text.Digit
import FormEdits.Text.Printable
import FormEdits.Text.Quoted
import FormEdits.Text.Upper
import FormEdits.Text.Utf8
import FormEdits.Time.Date
import FormEdits.Time.DateTime
import FormEdits.Uri.Authority
import FormEdits.Uri.Join
import FormEdits.Uri.Parts
import FormEdits.Uuid
import FormEdits.Proofs.Assoc
import FormEdits.Proofs.Macros.Table
import FormEdits.Proofs.Macros.Cycles
import FormEdits.Proofs.Macros.Expand
import FormEdits.Proofs.Macros.Solution
import FormEdits.Proofs.Form
import FormEdits.Proofs.Edit.Errors
import FormEdits.Proofs.Session.Changes
import FormEdits.Proofs.Edit.Applied
import FormEdits.Proofs.Edit.Execution
import FormEdits.Proofs.Edit.Written
import FormEdits.Proofs.Rdf.Quoted
import FormEdits.Proofs.Edit.Tokens
import FormEdits.Proofs.Edit.Reader
import FormEdits.Proofs.Edit.Membership
import FormEdits.Proofs.Key.Template
import FormEdits.Proofs.Statement.Readings
import FormEdits.Proofs.Statement.Clearing
import FormEdits.Proofs.Macros.Part
import FormEdits.Proofs.Session.Rebuilt
import FormEdits.Proofs.Session.Preset
import FormEdits.Proofs.Session.Rearranged
import FormEdits.Proofs.Macros.Reference
import FormEdits.Proofs.Key.Declaration
import FormEdits.Proofs.Session.Expanding
import FormEdits.Proofs.Edit.WellFormed
import FormEdits.Proofs.Session.Invariant
import FormEdits.Proofs.Statement.Datatypes
import FormEdits.Proofs.Session.Separate
import FormEdits.Proofs.Statement.Values
import FormEdits.Proofs.Edit.Labels
import FormEdits.Proofs.Statement.Graphs
import FormEdits.Proofs.Statement.Terms
import FormEdits.Proofs.Statement.Labels
import FormEdits.Proofs.Uri.Characters
import FormEdits.Proofs.Edit.Writable
import FormEdits.Proofs.Statement.Writable
import FormEdits.Proofs.Uri.Faults
import FormEdits.Proofs.Statement.References
import FormEdits.Proofs.Settings.Validation
import FormEdits.Proofs.Settings.Installed
import FormEdits.Proofs.Command.Overrides
import FormEdits.Proofs.Text.Basic
import FormEdits.Proofs.Text.Utf8
import FormEdits.Proofs.Form.Encoded
import FormEdits.Proofs.Json.Document
import FormEdits.Proofs.Json.Written
import FormEdits.Proofs.Command.Input
import FormEdits.Proofs.Macros.Composition
import FormEdits.Proofs.Statement.Edits
import FormEdits.Proofs.Statement.Reversed
import FormEdits.Proofs.Key.Recognition
import FormEdits.Proofs.Session.BoundPrefix
import FormEdits.Proofs.Edit.Matching
import FormEdits.Proofs.Macros.Calls
import FormEdits.Proofs.Macros.Visits
import FormEdits.Proofs.Macros.Counts
import FormEdits.Proofs.Text.Base64
import FormEdits.Proofs.Uuid
import FormEdits.Proofs.Settings.Layers
import FormEdits.Proofs.Command.Layers
