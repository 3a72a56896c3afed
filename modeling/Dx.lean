import Dx.Library.Run
import Dx.Library.Chain
import Dx.Library.PackedPool
import Dx.Kernel.State
import Dx.Kernel.Thread
import Dx.Kernel.Machine
import Dx.Kernel.Ownership
import Dx.Kernel.Known
import Dx.Kernel.Addressed
import Dx.Kernel.PendingPool
import Dx.Kernel.WaitFor
import Dx.Kernel.Stack
import Dx.Kernel.ThreadTable
import Dx.Kernel.References
import Dx.Kernel.Tickets
import Dx.Kernel.Mailbox
import Dx.Kernel.Replies
import Dx.Library.Fifo
import Dx.Kernel.Delivery
import Dx.Kernel.Outcomes
import Dx.Kernel.Cleanup
import Dx.Library.Buddy
import Dx.Memory.Bitmap
import Dx.Memory.Region
import Dx.Memory.Coalescing
import Dx.Memory.FrameManager
import Dx.Library.Bytes
import Dx.User.Arguments
import Dx.User.Loader
import Dx.User.Stream
import Dx.Memory.PageDirectory
import Dx.Memory.Search
import Dx.Memory.PayloadPool
import Dx.Memory.AddressSpace
import Dx.Memory.Machine
import Dx.Memory.Changes
import Dx.User.Segments
import Dx.User.Console
import Dx.Memory.Expansion
import Dx.Memory.Receiving
import Dx.Memory.Formed
import Dx.Memory.BitmapRanges
import Dx.Library.BitSet
import Dx.Library.Refinement
import Dx.Memory.FlatBitmap
import Dx.Library.Slab
import Dx.Memory.Pools
import Dx.Memory.PortMap
import Dx.Memory.KernelHeap
import Dx.Memory.PayloadBlocks
import Dx.Containers.ObjectList
import Dx.Containers.HashTable
import Dx.Containers.FiniteMap
import Dx.Containers.Leaks
import Dx.Memory.Contiguous
import Dx.Memory.KernelPages
import Dx.Kernel.Lottery
import Dx.Memory.DeviceMemory
import Dx.Kernel.DeviceProxy
import Dx.Kernel.Dispatch
import Dx.Kernel.Ids
import Dx.Libc.Ctype
import Dx.Libc.Numbers
import Dx.Library.Loop
import Dx.Libc.Search
import Dx.Libc.Scan
import Dx.Libc.Format
import Dx.Libc.Render
import Dx.Libc.Compare
import Dx.Libc.RoundTrip
import Dx.Library.LongestMatch
import Dx.Libc.Grammar
import Dx.Libc.PrintScan
import Dx.Libc.Consumption
import Dx.Libc.Calendar
import Dx.Libc.Strftime
import Dx.Libc.DateFields
import Dx.Kernel.Pressure
import Dx.Memory.Confinement
import Dx.Kernel.Locks
import Dx.User.Terminal
import Dx.User.Reading
import Dx.User.Keyboard
import Dx.User.Ramdisk
import Dx.Libc.Blocks
import Dx.User.SendMessage
