import FirstFit.Pools
import FirstFit.Chains
import FirstFit.Chain.Audit
import FirstFit.Workload.Run
import FirstFit.Workload.Clients
import FirstFit.Proofs.Layout.Audit
import FirstFit.Proofs.Layout.Gaps
import FirstFit.Proofs.Layout.Insertion
import FirstFit.Proofs.Arena
import FirstFit.Proofs.Arena.Writes
import FirstFit.Proofs.Pool.Space
import FirstFit.Proofs.Pool.Run
import FirstFit.Proofs.Pool.Contents
import FirstFit.Proofs.Pool.Reached
import FirstFit.Proofs.Pool.Journal
import FirstFit.Proofs.Pool.Resize
import FirstFit.Proofs.Pool.Allocate
import FirstFit.Proofs.Pool.Occupancy
import FirstFit.Proofs.Pools.Run
import FirstFit.Proofs.Pool.Handles
import FirstFit.Proofs.Pool.Freeing
import FirstFit.Proofs.Chain.Adding
import FirstFit.Proofs.Chain.Image
import FirstFit.Proofs.Chain.Refusal
import FirstFit.Proofs.Chain.References
import FirstFit.Proofs.Chain.Slots
import FirstFit.Proofs.Chain.Locks
import FirstFit.Proofs.Chain.CleanUp
import FirstFit.Proofs.Chain.Traversal
import FirstFit.Proofs.Chain.Ranges
import FirstFit.Proofs.Chain.Journal
import FirstFit.Proofs.Chain.Zeroing
import FirstFit.Proofs.Chain.Records
import FirstFit.Proofs.Chain.Build
import FirstFit.Proofs.Chains.Run
import FirstFit.Proofs.Workload.Run
import FirstFit.Proofs.Workload.Clients
