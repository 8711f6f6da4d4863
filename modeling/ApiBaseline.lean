import ApiBaseline.Main
import ApiBaseline.Proofs.Classify.ByReference
import ApiBaseline.Proofs.Classify.Explicit
import ApiBaseline.Proofs.Classify.Hiding
import ApiBaseline.Proofs.Classify.MemberOrder
import ApiBaseline.Proofs.Classify.Override
import ApiBaseline.Proofs.Classify.Removal
import ApiBaseline.Proofs.Command.Generate
import ApiBaseline.Proofs.Decimal.RoundTrip
import ApiBaseline.Proofs.Diff.Overload
import ApiBaseline.Proofs.Diff.Report
import ApiBaseline.Proofs.Diff.Self
import ApiBaseline.Proofs.Diff.Swap
import ApiBaseline.Proofs.Dispatch.Inherited
import ApiBaseline.Proofs.Filter.Namespace
import ApiBaseline.Proofs.Generate.Entries
import ApiBaseline.Proofs.Generate.Faults
import ApiBaseline.Proofs.Generate.Names
import ApiBaseline.Proofs.Generate.Settings
import ApiBaseline.Proofs.Json.Integer
import ApiBaseline.Proofs.Json.Line
import ApiBaseline.Proofs.Json.Numeral
import ApiBaseline.Proofs.Metadata.BaseChain
import ApiBaseline.Proofs.Metadata.Expansion
import ApiBaseline.Proofs.Metadata.Index
import ApiBaseline.Proofs.Metadata.Inheritance
import ApiBaseline.Proofs.Metadata.Reduction
import ApiBaseline.Proofs.Record.MemberId
import ApiBaseline.Proofs.Schema.Document
import ApiBaseline.Proofs.Schema.Manifest
import ApiBaseline.Proofs.Schema.Yields
import ApiBaseline.Proofs.TypeRef.Canonical
import ApiBaseline.Proofs.TypeRef.Composition
import ApiBaseline.Proofs.TypeRef.Offset
import ApiBaseline.Proofs.TypeRef.Refusal
import ApiBaseline.Proofs.TypeRef.RoundTrip
import ApiBaseline.Workspace.Basic
