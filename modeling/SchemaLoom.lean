import SchemaLoom.Entries
import SchemaLoom.Json.Basic
import SchemaLoom.Json.Printer
import SchemaLoom.Json.Scan
import SchemaLoom.Text.Shown
import SchemaLoom.Json.Reading
import SchemaLoom.Json.Pointer
import SchemaLoom.Identifier
import SchemaLoom.Model.Encode
import SchemaLoom.Schema.Convert
import SchemaLoom.Baml.Source
import SchemaLoom.Builder.Registry
import SchemaLoom.Tool.Convert
import SchemaLoom.Command.Arguments
import SchemaLoom.Command.FileSystem
import SchemaLoom.Command.Pattern
import SchemaLoom.Command.Run
import SchemaLoom.Main
import SchemaLoom.Proofs.Identifier.Names
import SchemaLoom.Proofs.Results
import SchemaLoom.Proofs.Walk.Steps
import SchemaLoom.Proofs.Walk.Descent
import SchemaLoom.Proofs.Walk.Rules
import SchemaLoom.Proofs.Walk.Keeps
import SchemaLoom.Proofs.References.Closed
import SchemaLoom.Proofs.Json.Within
import SchemaLoom.Proofs.Schema.Classify
import SchemaLoom.Proofs.Walk.Parts
import SchemaLoom.Proofs.Walk.Finishes
import SchemaLoom.Proofs.Schema.Legible
import SchemaLoom.Proofs.Walk.Accepted
import SchemaLoom.Proofs.Walk.Preorder
import SchemaLoom.Proofs.Walk.Expansions
import SchemaLoom.Proofs.Json.Pointers
import SchemaLoom.Proofs.Json.Paths
import SchemaLoom.Proofs.Identifier.Normal
import SchemaLoom.Proofs.Model.Inhabits
import SchemaLoom.Proofs.Schema.Valid
import SchemaLoom.Proofs.Walk.Addressed
import SchemaLoom.Proofs.Meaning.Covers
import SchemaLoom.Proofs.Meaning.Widens
import SchemaLoom.Proofs.Walk.Calls
import SchemaLoom.Proofs.Walk.Ends
import SchemaLoom.Proofs.References.Forward
import SchemaLoom.Proofs.References.Reported
import SchemaLoom.Proofs.References.Refused
import SchemaLoom.Proofs.Entries.Filtered
import SchemaLoom.Proofs.References.Restored
import SchemaLoom.Proofs.Model.Reused
import SchemaLoom.Proofs.Model.Repeated
import SchemaLoom.Proofs.Tool.Names
import SchemaLoom.Proofs.Entries.LastWins
import SchemaLoom.Proofs.Builder.Merge
import SchemaLoom.Proofs.Builder.Complete
import SchemaLoom.Proofs.Tool.Registered
import SchemaLoom.Proofs.Baml.Parts
import SchemaLoom.Proofs.Baml.Agreement
import SchemaLoom.Proofs.Baml.RawStrings
import SchemaLoom.Proofs.Baml.Normal
import SchemaLoom.Proofs.Baml.Types
import SchemaLoom.Proofs.Baml.Blocks
import SchemaLoom.Proofs.Baml.Lossless
import SchemaLoom.Proofs.Json.Strings
import SchemaLoom.Proofs.Builder.Deduped
import SchemaLoom.Proofs.Model.Projected
import SchemaLoom.Proofs.Json.Rebased
import SchemaLoom.Proofs.Tool.Hoisted
import SchemaLoom.Proofs.Tool.Rebased
import SchemaLoom.Proofs.Walk.Lockstep
import SchemaLoom.Proofs.Tool.Wrapped
import SchemaLoom.Proofs.Model.Named
import SchemaLoom.Proofs.Tool.Discriminated
import SchemaLoom.Proofs.Builder.Dangling
import SchemaLoom.Proofs.Builder.Resolved
import SchemaLoom.Proofs.Model.Unions
import SchemaLoom.Proofs.References.Located
import SchemaLoom.Proofs.Builder.Presence
import SchemaLoom.Proofs.Tool.Choice
import SchemaLoom.Proofs.Json.Relative
import SchemaLoom.Proofs.Json.Stored
import SchemaLoom.Proofs.Json.Reread
import SchemaLoom.Proofs.Tool.Described
import SchemaLoom.Proofs.Tool.Reread
