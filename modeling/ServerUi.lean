import ServerUi.Config.File
import ServerUi.Error
import ServerUi.Main
import ServerUi.Node.Equality
import ServerUi.Proofs.Config.Usable
import ServerUi.Proofs.Decimal.Integers
import ServerUi.Proofs.Dispatch.Calls
import ServerUi.Proofs.Dispatch.Cascades
import ServerUi.Proofs.Dispatch.Chains
import ServerUi.Proofs.Dispatch.Copying
import ServerUi.Proofs.Dispatch.Depth
import ServerUi.Proofs.Dispatch.Recording
import ServerUi.Proofs.Dispatch.Repeats
import ServerUi.Proofs.Dispatch.Reports
import ServerUi.Proofs.Dispatch.Retyping
import ServerUi.Proofs.Dispatch.Typing
import ServerUi.Proofs.Expr.Arithmetic
import ServerUi.Proofs.Expr.Comparisons
import ServerUi.Proofs.Expr.Grammar
import ServerUi.Proofs.Expr.Lexing
import ServerUi.Proofs.Expr.Parsing
import ServerUi.Proofs.Expr.Printing
import ServerUi.Proofs.Json.Alike
import ServerUi.Proofs.Json.Image
import ServerUi.Proofs.Json.Keeping
import ServerUi.Proofs.Json.Records
import ServerUi.Proofs.Node.Decoding
import ServerUi.Proofs.Node.Identities
import ServerUi.Proofs.Node.Record
import ServerUi.Proofs.Node.RoundTrip
import ServerUi.Proofs.Render.Outlines
import ServerUi.Proofs.Render.References
import ServerUi.Proofs.Service.Verdicts
import ServerUi.Proofs.Session.Addressing
import ServerUi.Proofs.Session.Applied
import ServerUi.Proofs.Session.Edits
import ServerUi.Proofs.Session.Freshness
import ServerUi.Proofs.Session.Revision
import ServerUi.Proofs.Session.Typing
import ServerUi.Proofs.Session.WellFormed
import ServerUi.Proofs.State.Coherence
import ServerUi.Proofs.State.History
import ServerUi.Proofs.State.Rounds
import ServerUi.Proofs.State.Sending
import ServerUi.Proofs.State.Substitution
import ServerUi.Proofs.Validation.Endings
import ServerUi.Proofs.Validation.Progress
import ServerUi.Proofs.Validation.Supersession
import ServerUi.Proofs.Validation.Timelines
import ServerUi.Proofs.Value.Canonical
import ServerUi.Proofs.Value.Image
import ServerUi.Proofs.Value.Meaning
import ServerUi.Proofs.Value.Rewriting
import ServerUi.Proofs.Value.RoundTrip
import ServerUi.Proofs.Value.Trees
import ServerUi.Session
import ServerUi.Validation.Timeline
