import HostGlue.Catalog.Reading
import HostGlue.Catalog.Written
import HostGlue.Settings
import HostGlue.Document
import HostGlue.Writer.Step
import HostGlue.File.Tree
import HostGlue.Run
import HostGlue.Command
import HostGlue.Command.Plain
import HostGlue.Main
import HostGlue.Proofs.Text.Lines
import HostGlue.Proofs.Writer.Written
import HostGlue.Proofs.Writer.Unwinding
import HostGlue.Proofs.Names
import HostGlue.Proofs.Script.Spelling
import HostGlue.Proofs.Entry.Acceptance
import HostGlue.Proofs.Entry.Emission
import HostGlue.Proofs.Entry.Complaints
import HostGlue.Proofs.Entry.Wiring
import HostGlue.Proofs.Entry.Keys
import HostGlue.Proofs.Entry.Calls
import HostGlue.Proofs.Context
import HostGlue.Proofs.Document.Registration
import HostGlue.Proofs.Document.Owners
import HostGlue.Proofs.Script.Reading
import HostGlue.Proofs.Entry.Face
import HostGlue.Proofs.Document.Reading
import HostGlue.Proofs.Script.Host
import HostGlue.Proofs.Script.Frame
import HostGlue.Proofs.Script.Steps
import HostGlue.Proofs.Entry.Forwarding
import HostGlue.Proofs.Entry.Recovery
import HostGlue.Proofs.Script.Scope
import HostGlue.Proofs.Entry.Scope
import HostGlue.Proofs.Document.Scope
import HostGlue.Proofs.Text.Brackets
import HostGlue.Proofs.Script.Nesting
import HostGlue.Proofs.Script.Assignments
import HostGlue.Proofs.Script.Literal
import HostGlue.Proofs.Document.Layout
import HostGlue.Proofs.Document.Slot
import HostGlue.Proofs.Document.Registered
import HostGlue.Proofs.Script.Tokens
import HostGlue.Proofs.Script.Notes
import HostGlue.Proofs.Entry.Vocabulary
import HostGlue.Proofs.File.Change
import HostGlue.Proofs.Run.Stages
import HostGlue.Proofs.Run.Repeat
import HostGlue.Proofs.Command.Invocations
import HostGlue.Proofs.Command.Effect
import HostGlue.Proofs.Json.Grammar
import HostGlue.Proofs.Json.Scanning
import HostGlue.Proofs.Json.Growing
import HostGlue.Proofs.Json.Cuts
import HostGlue.Proofs.Json.Depth
import HostGlue.Proofs.Json.Writing
import HostGlue.Proofs.Catalog.Roles
import HostGlue.Proofs.Catalog.Members
import HostGlue.Proofs.Catalog.RoundTrip
import HostGlue.Proofs.Catalog.Places
import HostGlue.Proofs.Catalog.Edits
import HostGlue.Proofs.Catalog.Positions
import HostGlue.Proofs.Catalog.Depth
import HostGlue.Proofs.Catalog.Forms
import HostGlue.Proofs.Toml.Gaps
import HostGlue.Proofs.Toml.Strings
import HostGlue.Proofs.Toml.Keys
import HostGlue.Proofs.Toml.Numbers
import HostGlue.Proofs.Toml.Moments
import HostGlue.Proofs.Toml.Scalars
import HostGlue.Proofs.Toml.Texts
import HostGlue.Proofs.Toml.Remarks
import HostGlue.Proofs.Toml.Sections
import HostGlue.Proofs.Toml.Marks
import HostGlue.Proofs.Toml.Values
import HostGlue.Proofs.Toml.Lawful
import HostGlue.Proofs.Settings.Records
import HostGlue.Proofs.Settings.Given
import HostGlue.Proofs.Settings.Spelled
import HostGlue.Proofs.Writer.Accounts
import HostGlue.Proofs.Entry.Parameters
import HostGlue.Proofs.Run.Records
import HostGlue.Proofs.Json.Integers
import HostGlue.Proofs.Json.Holes
import HostGlue.Proofs.Catalog.Values
import HostGlue.Proofs.Catalog.Codes
import HostGlue.Proofs.Catalog.Cuts
import HostGlue.Proofs.Ty.Notation
import HostGlue.Proofs.Document.Views
