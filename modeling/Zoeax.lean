import Zoeax.Lib.Arena
import Zoeax.Lib.Blocks
import Zoeax.Lib.Chain
import Zoeax.Lib.Checks
import Zoeax.Lib.Descent
import Zoeax.Lib.Exec
import Zoeax.Lib.Follows
import Zoeax.Lib.Forest
import Zoeax.Lib.Integrity
import Zoeax.Lib.Ledger
import Zoeax.Lib.Queues
import Zoeax.Lib.Radix
import Zoeax.Lib.Rv64
import Zoeax.Lib.Sched
import Zoeax.Lib.Sv48
import Zoeax.Lib.Usize
import Zoeax.Lib.Waiting
import Zoeax.Shared
import Zoeax.Kernel.CNode
import Zoeax.Kernel.Capability
import Zoeax.Kernel.Elf
import Zoeax.Kernel.Handler
import Zoeax.Kernel.Init
import Zoeax.Kernel.LinkedList
import Zoeax.Kernel.PageTable
import Zoeax.Kernel.State
import Zoeax.Kernel.Syscall
import Zoeax.Kernel.Thread
import Zoeax.Kernel.Untyped
import Zoeax.Client.Caps
import Zoeax.Client.Elf
import Zoeax.Verify.Abi
import Zoeax.Verify.Accounts
import Zoeax.Verify.Alignment
import Zoeax.Verify.Allocation
import Zoeax.Verify.Atomicity
import Zoeax.Verify.Authority
import Zoeax.Verify.Boot
import Zoeax.Verify.BootCaps
import Zoeax.Verify.CNodeOps
import Zoeax.Verify.Calls
import Zoeax.Verify.Client
import Zoeax.Verify.Context
import Zoeax.Verify.Derivation
import Zoeax.Verify.Domains
import Zoeax.Verify.Endpoint
import Zoeax.Verify.Errors
import Zoeax.Verify.Frame
import Zoeax.Verify.Guards
import Zoeax.Verify.Heap
import Zoeax.Verify.Held
import Zoeax.Verify.Isolation
import Zoeax.Verify.KernelLoader
import Zoeax.Verify.KernelMap
import Zoeax.Verify.Labels
import Zoeax.Verify.LinkedList
import Zoeax.Verify.Loaders
import Zoeax.Verify.Lookup
import Zoeax.Verify.Mapping
import Zoeax.Verify.Notification
import Zoeax.Verify.OnDemand
import Zoeax.Verify.Overflow
import Zoeax.Verify.Paging
import Zoeax.Verify.Partition
import Zoeax.Verify.Placement
import Zoeax.Verify.Pools
import Zoeax.Verify.Privilege
import Zoeax.Verify.Profiles
import Zoeax.Verify.ProgramLoader
import Zoeax.Verify.Protection
import Zoeax.Verify.Quantum
import Zoeax.Verify.Retype
import Zoeax.Verify.RootCNode
import Zoeax.Verify.Scheduler
import Zoeax.Verify.Segments
import Zoeax.Verify.Sharing
import Zoeax.Verify.Slots
import Zoeax.Verify.Splice
import Zoeax.Verify.Stable
import Zoeax.Verify.Step
import Zoeax.Verify.Threads
import Zoeax.Verify.TimeSlice
import Zoeax.Verify.Tlb
import Zoeax.Verify.Trace
import Zoeax.Verify.Traverse
import Zoeax.Verify.Turns
import Zoeax.Verify.Unmap
import Zoeax.Verify.Untyped
import Zoeax.Verify.UserImage
import Zoeax.Intrusive.Assertions
import Zoeax.Intrusive.Blind
import Zoeax.Intrusive.Kernel
import Zoeax.Intrusive.Progress
import Zoeax.Intrusive.Refinement
