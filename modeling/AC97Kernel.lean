import AC97Kernel.Heap.Contract
import AC97Kernel.Heap.Coalescing
import AC97Kernel.Heap.UserContract
import AC97Kernel.Heap.Requests
import AC97Kernel.Heap.Realloc
import AC97Kernel.Paging.Contract
import AC97Kernel.Paging.Allocator
import AC97Kernel.Audio.Bounds
import AC97Kernel.Audio.Ending
import AC97Kernel.Audio.Stream
import AC97Kernel.Audio.Descriptors
import AC97Kernel.Audio.Waiting
import AC97Kernel.Audio.Timing
import AC97Kernel.Storage.ReadAll
import AC97Kernel.Storage.Ext2
import AC97Kernel.Storage.Files
import AC97Kernel.Storage.Addresses
import AC97Kernel.Storage.BlockMap
import AC97Kernel.Storage.Traversal
import AC97Kernel.Storage.Lookup
import AC97Kernel.Storage.SymbolicLinks
import AC97Kernel.Storage.Offsets
import AC97Kernel.Storage.BlockCounts
import AC97Kernel.Config.Madt
import AC97Kernel.Boot.Progress
import AC97Kernel.Calls.Buffers
import AC97Kernel.Calls.Elf
import AC97Kernel.Calls.Handles
import AC97Kernel.Calls.Open
import AC97Kernel.Calls.LinkLoop
import AC97Kernel.Calls.Execl
import AC97Kernel.Calls.ArgumentStack
import AC97Kernel.Calls.Image
import AC97Kernel.Calls.ForkCall
import AC97Kernel.Calls.Leaks
import AC97Kernel.Calls.Statuses
import AC97Kernel.Calls.Libc
import AC97Kernel.Threads.Preemption
import AC97Kernel.Threads.Semaphores
import AC97Kernel.Threads.QueueRuns
import AC97Kernel.Sync.BoundedBuffer
import AC97Kernel.Sync.Future
import AC97Kernel.Sync.Barrier
import AC97Kernel.Sync.ReusableBarrier
import AC97Kernel.Sync.Shared
import AC97Kernel.Sync.SharedCounts
import AC97Kernel.Sync.SharedDrop
import AC97Kernel.Sync.SharedContract
import AC97Kernel.Sync.InterruptSafeLock
import AC97Kernel.Machine.Coroutines
import AC97Kernel.Machine.Interrupts
import AC97Kernel.Printing.Written
