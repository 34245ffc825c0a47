import Plebiscite.Assembly.Command
import Plebiscite.Assembly.Founding
import Plebiscite.Described.Poll
import Plebiscite.Described.Signal
import Plebiscite.Described.Snapshot
import Plebiscite.Journal.Written
import Plebiscite.Ledger.Command
import Plebiscite.Ledger.Storage
import Plebiscite.Roster
import Plebiscite.Proofs.Ledger.Exactness
import Plebiscite.Proofs.Ledger.RoundTrip
import Plebiscite.Proofs.Snapshot.Validity
import Plebiscite.Proofs.Snapshot.Refusal
import Plebiscite.Proofs.Ledger.Acceptance
import Plebiscite.Proofs.Identifier.Cycle
import Plebiscite.Proofs.Ledger.Refusal
import Plebiscite.Proofs.Ledger.Identifiers
import Plebiscite.Proofs.Ledger.Restorable
import Plebiscite.Proofs.Ledger.Alike
import Plebiscite.Proofs.Ledger.Policies
import Plebiscite.Proofs.Ledger.Interleaving
import Plebiscite.Proofs.Ledger.Casting
import Plebiscite.Proofs.Assembly.Run
import Plebiscite.Proofs.Assembly.Fold
import Plebiscite.Proofs.Assembly.History
import Plebiscite.Proofs.Roster
import Plebiscite.Proofs.Assembly.Authority
import Plebiscite.Proofs.Ledger.Endurance
import Plebiscite.Proofs.Ledger.Isolation
import Plebiscite.Proofs.Assembly.Agreement
import Plebiscite.Proofs.Assembly.Resumption
import Plebiscite.Proofs.Roster.Stakes
import Plebiscite.Proofs.Ledger.Rejection
import Plebiscite.Proofs.Assembly.Rejection
import Plebiscite.Proofs.Ledger.Genesis
import Plebiscite.Proofs.Ledger.Reopening
import Plebiscite.Proofs.Ledger.Expiry
import Plebiscite.Proofs.Canonical
import Plebiscite.Proofs.Snapshot.Legible
import Plebiscite.Proofs.Ledger.Legible
import Plebiscite.Proofs.Ledger.Digest
import Plebiscite.Proofs.Ledger.Decision
import Plebiscite.Proofs.Ledger.Listing
import Plebiscite.Proofs.Ledger.Normal
import Plebiscite.Proofs.Ledger.Registration
import Plebiscite.Proofs.Ledger.Monotonicity
import Plebiscite.Proofs.Plan.Refusal
import Plebiscite.Proofs.Roster.History
import Plebiscite.Proofs.Form.Guards
import Plebiscite.Proofs.Identifier.Asking
import Plebiscite.Proofs.Height.Exactness
import Plebiscite.Proofs.Signal.Text
import Plebiscite.Proofs.Ledger.Reach
