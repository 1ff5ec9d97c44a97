import SovereignBus.Library.Tamper
import SovereignBus.Library.Framing
import SovereignBus.Library.Machine
import SovereignBus.Library.Extents
import SovereignBus.Library.Loop
import SovereignBus.Lattice.Ports
import SovereignBus.Lattice.Tamper
import SovereignBus.Lattice.Faults
import SovereignBus.Lattice.Writers
import SovereignBus.Lattice.Ring
import SovereignBus.Lattice.Ranges
import SovereignBus.Lattice.Specs
import SovereignBus.Nif.Kernel
import SovereignBus.Nif.Wal
import SovereignBus.Nif.Refinement
import SovereignBus.Nif.Placement
import SovereignBus.Nif.Bounds
import SovereignBus.Nif.Agreement
import SovereignBus.Nif.Replay
import SovereignBus.Nif.Server
import SovereignBus.Verifier.Inverse
import SovereignBus.Verifier.LeastSquares
import SovereignBus.Verifier.Enforcement
import SovereignBus.Verifier.Indices
import SovereignBus.Verifier.Kernels
import SovereignBus.Typecheck.Framing
import SovereignBus.Typecheck.Caller
import SovereignBus.Typecheck.Soundness
import SovereignBus.Ada.Runs
import SovereignBus.Verifier.Budget
import SovereignBus.Ada.Handles
import SovereignBus.Agent.Fsm
import SovereignBus.HumanTouch.Capacity
import SovereignBus.HumanTouch.Approval
import SovereignBus.HumanTouch.Atomic
import SovereignBus.HumanTouch.Tasks
import SovereignBus.Policy.Gate
import SovereignBus.Bridges.Sealing
import SovereignBus.Agent.Offsets
import SovereignBus.Agent.Delivery
import SovereignBus.Agent.Supervision
import SovereignBus.Policy.Queries
import SovereignBus.Policy.Constitution
import SovereignBus.Routing.Partitions
import SovereignBus.Fiscal.Retry
import SovereignBus.Convergence.Verify
import SovereignBus.Convergence.Dropped
import SovereignBus.Obligations.Witness
import SovereignBus.Obligations.Parsed
import SovereignBus.Certificate.RoundTrip
import SovereignBus.Reasoning.Streaming
import SovereignBus.Reasoning.Signing
import SovereignBus.Notebook.Cycles
import SovereignBus.Notebook.Receipts
import SovereignBus.Notebook.Nonces
import SovereignBus.Notebook.Gate
import SovereignBus.Universe.Reload
import SovereignBus.Universe.Gate
import SovereignBus.Sandbox.Receipt
import SovereignBus.Typecheck.Advance
import SovereignBus.Shrewd.Verdict
import SovereignBus.Shrewd.Training
import SovereignBus.Notebook.Provenance
import SovereignBus.Bridges.Accounting
import SovereignBus.Rpg.Events
import SovereignBus.Rpg.Stub
import SovereignBus.Fiscal.PayloadText
import SovereignBus.Convergence.Metadata
import SovereignBus.Knowledge.Verification
