import TrollOS.Lib.ByteMemory
import TrollOS.Lib.Chain
import TrollOS.Lib.Partition
import TrollOS.Lib.Counting
import TrollOS.Lib.CyclicSearch
import TrollOS.Mem.Model
import TrollOS.Mem.Layout
import TrollOS.Mem.FreeList
import TrollOS.Mem.Kfree
import TrollOS.Mem.KfreeRep
import TrollOS.Mem.Growth
import TrollOS.Mem.Take
import TrollOS.Mem.QuickSplit
import TrollOS.Mem.System
import TrollOS.Mem.Kmalloc
import TrollOS.Mem.Krealloc
import TrollOS.Mem.Session
import TrollOS.Mem.Safety
import TrollOS.Mem.Accounting
import TrollOS.Mem.Classes
import TrollOS.Mem.Backing
import TrollOS.Mem.Paging
import TrollOS.Mem.Guarantees
import TrollOS.Mem.Break
import TrollOS.Errno
import TrollOS.Lib.Outcome
import TrollOS.Device.Registry
import TrollOS.Device.Modules
import TrollOS.Device.Spi
import TrollOS.Device.Memblk
import TrollOS.Vfs.Model
import TrollOS.Vfs.Components
import TrollOS.Vfs.Extraction
import TrollOS.Vfs.Resolution
import TrollOS.Vfs.Accounting
import TrollOS.Lib.CString
import TrollOS.Romfs.Model
import TrollOS.Romfs.Directory
import TrollOS.Process.Model
import TrollOS.Process.Scheduling
import TrollOS.Process.Slots
import TrollOS.Process.Chardev
import TrollOS.Process.Syscall
import TrollOS.Process.Contexts
import TrollOS.Process.Ending
import TrollOS.Process.Spaces
import TrollOS.Process.Files
import TrollOS.Lib.Traced
import TrollOS.Process.Accesses
import TrollOS.Process.Backing
import TrollOS.Process.Tables
import TrollOS.Process.Callbacks
import TrollOS.Process.Recycled
import TrollOS.Process.Execve
import TrollOS.Mmu.Window
import TrollOS.Elf.Model
import TrollOS.Mmu.Trees
import TrollOS.Mmu.Copying
import TrollOS.Mmu.Placing
import TrollOS.Mmu.UserSpaces
import TrollOS.Mmu.Isolation
import TrollOS.Mmu.Mapping
import TrollOS.Mmu.Discarding
import TrollOS.Mmu.Exhaustion
import TrollOS.Console.Parser
import TrollOS.Console.Framebuffer
import TrollOS.Console.Bounds
import TrollOS.Process.Forking
import TrollOS.Mmu.Watching
import TrollOS.Mmu.Discipline
import TrollOS.Mmu.Startup
import TrollOS.Mmu.InPage
import TrollOS.Mmu.Calls
import TrollOS.Mmu.Counter
import TrollOS.Mmu.BootList
import TrollOS.Console.Sequences
import TrollOS.Console.Movement
import TrollOS.Console.Omitted
import TrollOS.Console.Scrolling
import TrollOS.Console.Backends
import TrollOS.Lib.Painting
import TrollOS.Console.Terminal
import TrollOS.Console.Rendering
import TrollOS.Console.Typing
import TrollOS.Romfs.Listing
import TrollOS.Romfs.Mounting
import TrollOS.Romfs.Termination
import TrollOS.Romfs.Reading
import TrollOS.Romfs.Layout
import TrollOS.Romfs.Paths
import TrollOS.Romfs.Contents
import TrollOS.Romfs.Decoding
import TrollOS.Romfs.Handles
import TrollOS.Mmu.UserCopies
import TrollOS.Console.Writing
import TrollOS.Mmu.Snapshot
import TrollOS.Elf.Loading
import TrollOS.Elf.Image
import TrollOS.Elf.Rounds
import TrollOS.Lib.Runs
import TrollOS.Text.Tokens
import TrollOS.Text.Numerals
import TrollOS.Text.Printf
import TrollOS.Text.ParseInt
import TrollOS.Text.Fields
import TrollOS.Lib.HalfWords
import TrollOS.Gdb.Model
import TrollOS.Gdb.Packets
import TrollOS.Gdb.Link
import TrollOS.Gdb.Stub
import TrollOS.Gdb.Hex
import TrollOS.Lib.Sessions
import TrollOS.Gdb.Session
import TrollOS.Gdb.Frames
import TrollOS.Gdb.Debugging
import TrollOS.Gdb.Resuming
import TrollOS.Gdb.Poking
import TrollOS.Gdb.Programs
