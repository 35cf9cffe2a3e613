import MiningClient.Main
import MiningClient.Session.Rehearsal
import MiningClient.Session.Trace
import MiningClient.Proofs.Session.Coherence
import MiningClient.Proofs.Session.Invariant
import MiningClient.Proofs.Session.Tasks
import MiningClient.Proofs.Session.Stale
import MiningClient.Proofs.Session.Isolation
import MiningClient.Proofs.Session.Chapter
import MiningClient.Proofs.Session.Fetching
import MiningClient.Proofs.Session.Hearing
import MiningClient.Proofs.Session.History
import MiningClient.Proofs.Session.Calls
import MiningClient.Proofs.Session.SingleStart
import MiningClient.Proofs.Session.Merging
import MiningClient.Proofs.Rpc.Reading
import MiningClient.Proofs.Rpc.SingleMessage
import MiningClient.Proofs.App.Traffic
import MiningClient.Proofs.App.Discipline
import MiningClient.Proofs.Rpc.SameStatus
import MiningClient.Proofs.State.Publication
import MiningClient.Proofs.Wire.Overlay
import MiningClient.Proofs.Messages.Overlaid
import MiningClient.Proofs.App.Serving
import MiningClient.Proofs.Settings.Effective
import MiningClient.Proofs.Storage.TwoCells
import MiningClient.Proofs.App.Expecting
import MiningClient.Proofs.App.FirstScreen
import MiningClient.Proofs.App.Settling
import MiningClient.Proofs.App.Startup
import MiningClient.Proofs.Messages.FieldOrder
import MiningClient.Proofs.Session.Reporting
import MiningClient.Proofs.Session.Retrying
import MiningClient.Proofs.Session.Waiting
import MiningClient.Proofs.Rpc.Buffering
import MiningClient.Proofs.Rpc.TrailerGrammar
import MiningClient.Proofs.Rpc.TrailerRoundTrip
import MiningClient.Proofs.App.Logout
import MiningClient.Proofs.Rpc.StatusMessage
import MiningClient.Proofs.Rpc.Pipeline
import MiningClient.Proofs.App.SigningIn
import MiningClient.Proofs.Storage.Persistence
import MiningClient.Proofs.Toml.Quoting
import MiningClient.Proofs.Settings.DefaultFile
import MiningClient.Proofs.Command.Mining
import MiningClient.Proofs.Command.Status
import MiningClient.Proofs.State.Registration
import MiningClient.Proofs.State.Lineage
import MiningClient.Proofs.Command.ReadBack
