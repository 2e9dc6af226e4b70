import Outbox.Bus.Session
import Outbox.Json.Forms
import Outbox.Memory.Session
import Outbox.Network.Retry
import Outbox.Proofs.Bus.Delivery
import Outbox.Proofs.Json.Forms
import Outbox.Proofs.Memory.Deletion
import Outbox.Proofs.Memory.Fifo
import Outbox.Proofs.Memory.Ledger
import Outbox.Proofs.Memory.Wrapped
import Outbox.Proofs.Message.Interleaving
import Outbox.Proofs.Message.Overcount
import Outbox.Proofs.Message.Present
import Outbox.Proofs.Message.Scrubs
import Outbox.Proofs.Network.Retry
import Outbox.Proofs.Queue.Backpressure
import Outbox.Proofs.Queue.Batching
import Outbox.Proofs.Queue.CallOff
import Outbox.Proofs.Queue.Exhaustion
import Outbox.Proofs.Queue.Fates
import Outbox.Proofs.Queue.Finishing
import Outbox.Proofs.Queue.Groups
import Outbox.Proofs.Queue.Ledger
import Outbox.Proofs.Queue.Lifecycle
import Outbox.Proofs.Queue.Limit
import Outbox.Proofs.Queue.Refusals
import Outbox.Proofs.Queue.Sender
import Outbox.Proofs.Queue.Streams
import Outbox.Proofs.Queue.Subscribers
import Outbox.Proofs.Settings.Overlay
import Outbox.Settings.Document
import Outbox.Simulation.Step
import Outbox.Telemetry.Logging
