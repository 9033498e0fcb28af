import Invalidation.Files
import Invalidation.Proofs.Graph.Admission
import Invalidation.Proofs.Graph.Alternation
import Invalidation.Proofs.Graph.Artifacts
import Invalidation.Proofs.Graph.Commutation
import Invalidation.Proofs.Graph.Containment
import Invalidation.Proofs.Graph.Continuation
import Invalidation.Proofs.Graph.FullBuild
import Invalidation.Proofs.Graph.Granularity
import Invalidation.Proofs.Graph.History
import Invalidation.Proofs.Graph.Idempotence
import Invalidation.Proofs.Graph.Interleaving
import Invalidation.Proofs.Graph.Invariant
import Invalidation.Proofs.Graph.Memory
import Invalidation.Proofs.Graph.Refusal
import Invalidation.Proofs.Graph.Reopening
import Invalidation.Proofs.Graph.Repetition
import Invalidation.Proofs.Graph.Skew
import Invalidation.Proofs.Graph.Spreading
import Invalidation.Proofs.Graph.TornSave
import Invalidation.Proofs.Graph.Widening
import Invalidation.Proofs.Integration.Content
import Invalidation.Proofs.Snapshot.Compatibility
import Invalidation.Proofs.Snapshot.Contract
import Invalidation.Proofs.Snapshot.Exchange
import Invalidation.Proofs.Snapshot.Meaning
import Invalidation.Proofs.Snapshot.Shorthand
import Invalidation.Proofs.Snapshot.Violation
import Invalidation.Proofs.Walk.Termination
import Invalidation.Snapshot.Shorthand
import Invalidation.Text.Quoted
