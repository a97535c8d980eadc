import SchemaReport.Json.Read
import SchemaReport.Main
import SchemaReport.Message.Equality
import SchemaReport.Proofs.Double.Rounding
import SchemaReport.Proofs.Double.Shortest
import SchemaReport.Proofs.Double.Integer
import SchemaReport.Proofs.Message.Slots
import SchemaReport.Proofs.Json.Number
import SchemaReport.Proofs.Json.Literal
import SchemaReport.Proofs.Json.Scan
import SchemaReport.Proofs.Json.Nesting
import SchemaReport.Proofs.Json.Write
import SchemaReport.Proofs.Schema.Enumeration
import SchemaReport.Proofs.Text.Base64
import SchemaReport.Proofs.Json.Read
import SchemaReport.Proofs.Report.Dump
import SchemaReport.Proofs.Wire.Reader
import SchemaReport.Proofs.Wire.Scalars
import SchemaReport.Proofs.Message.Depth
import SchemaReport.Proofs.Wire.RoundTrip
import SchemaReport.Proofs.Text.Pieces
import SchemaReport.Proofs.Text.Digits
import SchemaReport.Proofs.QualifiedName
import SchemaReport.Proofs.Options
import SchemaReport.Proofs.Walk.Order
import SchemaReport.Proofs.Report.Graph
import SchemaReport.Proofs.Report.GraphText
import SchemaReport.Proofs.Report.EdgeEnds
import SchemaReport.Proofs.Wire.Concatenation
import SchemaReport.Proofs.Wire.Framing
import SchemaReport.Proofs.Wire.Records
import SchemaReport.Proofs.Wire.FieldOrder
import SchemaReport.Proofs.Wire.NumberLists
import SchemaReport.Proofs.Stream
import SchemaReport.Proofs.Invocation
import SchemaReport.Proofs.Plugin
import SchemaReport.Proofs.LogFilter
import SchemaReport.Proofs.Wire.Faults
import SchemaReport.Proofs.CommandLine
import SchemaReport.Proofs.Wire.UnknownFields
import SchemaReport.Proofs.Json.Levels
import SchemaReport.Proofs.Json.Accepted
import SchemaReport.Proofs.Json.WholeDouble
import SchemaReport.Proofs.Report.Archive
import SchemaReport.Proofs.Report.Sections
import SchemaReport.Proofs.Report.Header
import SchemaReport.Proofs.Report.Scope
import SchemaReport.Proofs.Report.Counts
import SchemaReport.Proofs.Report.GraphLog
import SchemaReport.Proofs.Report.NamePaths
import SchemaReport.Proofs.Json.Member
import SchemaReport.Proofs.Json.BytesText
import SchemaReport.Proofs.Json.Layout
import SchemaReport.Proofs.Json.Grammar
import SchemaReport.Proofs.Json.Spelling
import SchemaReport.Proofs.Json.Written
import SchemaReport.Proofs.Json.EnumerationValue
import SchemaReport.Proofs.Report.Skeleton
import SchemaReport.Proofs.Json.EnumerationValue
