import BlockCache.Layout
import BlockCache.Record
import BlockCache.Error
import BlockCache.OpenFlags
import BlockCache.Bytes
import BlockCache.Buffer
import BlockCache.Stats
import BlockCache.Catalog
import BlockCache.Path
import BlockCache.Slot
import BlockCache.Event
import BlockCache.Pool.Lookup
import BlockCache.Pool
import BlockCache.Pool.Operation
import BlockCache.OpenFile
import BlockCache.FileTable
import BlockCache.Storage
import BlockCache.Cache
import BlockCache.Cache.Transfer
import BlockCache.Storage.Memory
import BlockCache.Storage.Guarded
import BlockCache.Storage.Scripted
import BlockCache.Cache.Session
import BlockCache.Cache.History
import BlockCache.Cache.Checked
import BlockCache.Storage.FaultyMemory
import BlockCache.Storage.SparseBytes
import BlockCache.Storage.FileTree
import BlockCache.Posix
import BlockCache.Posix.Words
import BlockCache.Posix.Session
import BlockCache.Proofs.Pool
import BlockCache.Proofs.Lookup
import BlockCache.Proofs.Table
import BlockCache.Proofs.Step
import BlockCache.Proofs.Regular
import BlockCache.Proofs.Calls
import BlockCache.Proofs.Disk
import BlockCache.Proofs.InMemory
import BlockCache.Proofs.Representation
import BlockCache.Proofs.Coupling
import BlockCache.Proofs.Contents
import BlockCache.Proofs.Damage
import BlockCache.Proofs.Durability
import BlockCache.Proofs.Consistency
import BlockCache.Proofs.Reference
import BlockCache.Proofs.Unfailing
import BlockCache.Proofs.Transparency
import BlockCache.Proofs.Past
import BlockCache.Proofs.History
import BlockCache.Proofs.Likeness
import BlockCache.Proofs.Oblivious
import BlockCache.Proofs.Secrecy
import BlockCache.Proofs.Idle
import BlockCache.Proofs.Handles
import BlockCache.Proofs.Closing
import BlockCache.Proofs.Sizes
import BlockCache.Proofs.Eviction
import BlockCache.Proofs.Guarded
import BlockCache.Proofs.Placement
import BlockCache.Proofs.Access
import BlockCache.Proofs.Serving
import BlockCache.Proofs.Lone
import BlockCache.Proofs.WriteOnly
import BlockCache.Proofs.Allocation
import BlockCache.Proofs.Traffic
import BlockCache.Proofs.Causes
import BlockCache.Proofs.Balance
import BlockCache.Proofs.WorkingSet
import BlockCache.Proofs.Forgetting
import BlockCache.Proofs.ReadOnly
import BlockCache.Proofs.Refusal
import BlockCache.Proofs.Syncing
import BlockCache.Proofs.Visits
import BlockCache.Proofs.Splitting
import BlockCache.Proofs.Mending
import BlockCache.Proofs.Restart
import BlockCache.Proofs.Seeking
import BlockCache.Proofs.Wrapping
import BlockCache.Proofs.Faults
import BlockCache.Proofs.Bounds
import BlockCache.Proofs.Ranges
