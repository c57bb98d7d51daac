import MessageSchema.Text.Blank
import MessageSchema.Text.Pieces
import MessageSchema.Text.Quoted
import MessageSchema.Descriptor
import MessageSchema.Parameters
import MessageSchema.Logged
import MessageSchema.Registry.Lookup
import MessageSchema.Schema.Basic
import MessageSchema.Inlining
import MessageSchema.Job
import MessageSchema.Wire.Varint
import MessageSchema.Wire.Reader
import MessageSchema.Generator.Invocation
import MessageSchema.CommandLine
import MessageSchema.Main
import MessageSchema.Proofs.Readings
import MessageSchema.Proofs.Expansion
import MessageSchema.Proofs.FirstFlaw
import MessageSchema.Proofs.Depth
import MessageSchema.Proofs.Unfolding
import MessageSchema.Proofs.JobRun
import MessageSchema.Proofs.PackageTexts
import MessageSchema.Proofs.Cycles
import MessageSchema.Proofs.Scopes
import MessageSchema.Proofs.Simulation
import MessageSchema.Proofs.AdditionalProperties
import MessageSchema.Proofs.Reordering
import MessageSchema.Proofs.FileOrder
import MessageSchema.Proofs.Arena.Basic
import MessageSchema.Proofs.Arena.Paths
import MessageSchema.Proofs.Arena.WellFormed
import MessageSchema.Proofs.NodeForms
import MessageSchema.Proofs.Wire.Records
import MessageSchema.Proofs.Wire.Components
import MessageSchema.Proofs.Wire.Requests
import MessageSchema.Proofs.Wire.Responses
import MessageSchema.Proofs.Answers
import MessageSchema.Proofs.Json.Grammar
import MessageSchema.Proofs.Json.Unambiguous
import MessageSchema.Proofs.Json.Printing
import MessageSchema.Proofs.DocumentTexts
import MessageSchema.Proofs.Growth
import MessageSchema.Proofs.OutwardSearch
import MessageSchema.Proofs.DocumentNames
import MessageSchema.Proofs.Events
import MessageSchema.Proofs.Composition
import MessageSchema.Proofs.FailureTrace
import MessageSchema.Proofs.JobLog
import MessageSchema.Proofs.CutReports
import MessageSchema.Proofs.ParameterTexts
import MessageSchema.Proofs.DocumentTokens
import MessageSchema.Proofs.InsertionOrder
import MessageSchema.Proofs.EnumReferences
