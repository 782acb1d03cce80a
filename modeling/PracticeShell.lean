import PracticeShell.Completion
import PracticeShell.Main
import PracticeShell.Proofs.Tree.Lookup
import PracticeShell.Proofs.Tree.Update
import PracticeShell.Proofs.Edit.Outcome
import PracticeShell.Proofs.Edit.Operation
import PracticeShell.Proofs.Edit.Failure
import PracticeShell.Proofs.Path
import PracticeShell.Proofs.Command.Invariant
import PracticeShell.Proofs.Tree.Shape
import PracticeShell.Proofs.Durable.Check
import PracticeShell.Proofs.Session.Soundness
import PracticeShell.Proofs.Command.Removal
import PracticeShell.Proofs.Json.Spelling
import PracticeShell.Proofs.Json.Token
import PracticeShell.Proofs.Json.RoundTrip
import PracticeShell.Proofs.Time.Calendar
import PracticeShell.Proofs.Time.Rfc3339
import PracticeShell.Proofs.Durable.RoundTrip
import PracticeShell.Proofs.Durable.Acceptance
import PracticeShell.Proofs.Edit.Transfer
import PracticeShell.Proofs.Line.CommandLine
import PracticeShell.Proofs.Text.Ends
import PracticeShell.Proofs.Session.History
import PracticeShell.Proofs.Line.Replay
import PracticeShell.Proofs.Edit.Removal
import PracticeShell.Proofs.Line.Length
import PracticeShell.Proofs.Terminal.Disk
import PracticeShell.Proofs.Terminal.Reopening
import PracticeShell.Proofs.Tree.Alter
import PracticeShell.Proofs.Edit.Commutation
import PracticeShell.Proofs.Session.Request
import PracticeShell.Proofs.Edit.Times
import PracticeShell.Proofs.Tree.Timeless
import PracticeShell.Proofs.Edit.Timeless
import PracticeShell.Proofs.Command.Timeless
import PracticeShell.Proofs.Text.Utf8
import PracticeShell.Proofs.Terminal.Conversation
import PracticeShell.Proofs.Line.Grammar
import PracticeShell.Proofs.Line.Recall
import PracticeShell.Proofs.Tree.Walk
import PracticeShell.Proofs.Edit.Refusal
import PracticeShell.Proofs.Edit.Parents
import PracticeShell.Proofs.Edit.Admission
import PracticeShell.Proofs.Edit.Undoing
import PracticeShell.Proofs.Command.Fault
import PracticeShell.Proofs.Path.Resolution
import PracticeShell.Proofs.Session.Cursor
import PracticeShell.Proofs.Session.Naming
import PracticeShell.Proofs.Completion.Candidates
import PracticeShell.Proofs.Completion.Meaning
import PracticeShell.Proofs.Command.Concatenation
import PracticeShell.Proofs.Command.Operands
import PracticeShell.Proofs.Session.Queries
import PracticeShell.Proofs.Session.Echo
import PracticeShell.Proofs.Text.ByteOrder
import PracticeShell.Proofs.Session.Listing
import PracticeShell.Proofs.Session.Clock
import PracticeShell.Proofs.Completion.Stability
import PracticeShell.Proofs.Terminal.Stream
import PracticeShell.Proofs.Command.Flags
import PracticeShell.Proofs.Edit.Standing
import PracticeShell.Proofs.Terminal.Workspace
import PracticeShell.Proofs.Terminal.Options
import PracticeShell.Proofs.Terminal.ConfigFile
import PracticeShell.Proofs.Pattern
import PracticeShell.Proofs.LogFilter.Order
import PracticeShell.Proofs.LogFilter.Text
import PracticeShell.Proofs.Terminal.Program
