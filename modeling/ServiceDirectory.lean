import ServiceDirectory.Config.Loading
import ServiceDirectory.Console
import ServiceDirectory.Drain
import ServiceDirectory.Lifetime
import ServiceDirectory.Proofs.Activity.Cycle
import ServiceDirectory.Proofs.Activity.Deadlock
import ServiceDirectory.Proofs.Activity.Expiry
import ServiceDirectory.Proofs.Activity.LeasePointer
import ServiceDirectory.Proofs.Activity.LeaseRun
import ServiceDirectory.Proofs.Activity.Listing
import ServiceDirectory.Proofs.Activity.Outage
import ServiceDirectory.Proofs.Activity.Overlay
import ServiceDirectory.Proofs.Activity.RemoteWrites
import ServiceDirectory.Proofs.Activity.Restart
import ServiceDirectory.Proofs.Backoff
import ServiceDirectory.Proofs.Config.Renewal
import ServiceDirectory.Proofs.Console.Many
import ServiceDirectory.Proofs.Keyspace.PointerKey
import ServiceDirectory.Proofs.Keyspace.Rewriting
import ServiceDirectory.Proofs.Keyspace.SameValues
import ServiceDirectory.Proofs.Message.Acceptance
import ServiceDirectory.Proofs.Mirror.CatchUp
import ServiceDirectory.Proofs.Mirror.Import
import ServiceDirectory.Proofs.Mirror.ImportRace
import ServiceDirectory.Proofs.Mirror.Quiet
import ServiceDirectory.Proofs.Mirror.Redelivery
import ServiceDirectory.Proofs.Mirror.Upkeep
import ServiceDirectory.Proofs.Row.Reading
import ServiceDirectory.Proofs.RowLock.Idle
import ServiceDirectory.Proofs.Store.Account
import ServiceDirectory.Proofs.Table.Repetition
import ServiceDirectory.Proofs.Watch.Delivery
import ServiceDirectory.RemoteClient
import ServiceDirectory.RowLock.Visits
import ServiceDirectory.Toml.Reader
