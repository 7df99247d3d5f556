import FiberEngine.Session
import FiberEngine.Proofs.Breaches
import FiberEngine.Proofs.Accounts
import FiberEngine.Proofs.Callbacks
import FiberEngine.Proofs.Stacks
import FiberEngine.Proofs.Suspension
import FiberEngine.Proofs.Recycling
import FiberEngine.Proofs.Scores
import FiberEngine.Proofs.Interleaving
import FiberEngine.Proofs.Trampolines
import FiberEngine.Proofs.Companions
import FiberEngine.Proofs.Lockstep
import FiberEngine.Proofs.Arrivals
import FiberEngine.Proofs.Transparency
import FiberEngine.Proofs.Rejections
import FiberEngine.Proofs.Faults
import FiberEngine.Proofs.Offspring
import FiberEngine.Proofs.Hindsight
import FiberEngine.Proofs.Isolation
import FiberEngine.Proofs.Loading
import FiberEngine.Proofs.LeafNames
import FiberEngine.Proofs.Settings
import FiberEngine.Proofs.Tunings
import FiberEngine.Proofs.DefaultSizes
import FiberEngine.Proofs.Poisoning
import FiberEngine.Proofs.Constructing
import FiberEngine.Proofs.Cascades
import FiberEngine.Proofs.Losses
import FiberEngine.Proofs.Handovers
import FiberEngine.Proofs.Entering
import FiberEngine.Proofs.RoundTrips
import FiberEngine.Proofs.Visits
