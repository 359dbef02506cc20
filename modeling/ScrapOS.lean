import ScrapOS.Memory.Bytes
import ScrapOS.Memory.Chain
import ScrapOS.Memory.Ring
import ScrapOS.Memory.Stack
import ScrapOS.DyadicBlocks.Basic
import ScrapOS.Simulation.Basic
import ScrapOS.Numerals.Basic
import ScrapOS.Lib.String
import ScrapOS.Serial.Basic
import ScrapOS.Serial.Numbers
import ScrapOS.Pmm.Basic
import ScrapOS.Buddy.Basic
import ScrapOS.Buddy.Lists
import ScrapOS.Buddy.Partition
import ScrapOS.Buddy.Refinement
import ScrapOS.Buddy.Runs
import ScrapOS.Buddy.Ownership
import ScrapOS.Buddy.Coalescing
import ScrapOS.FifoQueue.Basic
import ScrapOS.Sched.Basic
import ScrapOS.Sched.Operations
import ScrapOS.Sched.Runs
import ScrapOS.Sched.Queue
import ScrapOS.Arch.Context
import ScrapOS.Arch.Stubs
import ScrapOS.Arch.Interrupt
import ScrapOS.Sched.Switch
import ScrapOS.Paging.Basic
import ScrapOS.Pmm.Bitmap
import ScrapOS.RadixTree.Basic
import ScrapOS.Paging.Tables
import ScrapOS.Paging.Create
import ScrapOS.Paging.Operations
import ScrapOS.Paging.Permissions
import ScrapOS.Paging.Exhaustion
import ScrapOS.Buddy.Replay
import ScrapOS.DyadicBlocks.Chop
import ScrapOS.Pmm.Runs
import ScrapOS.Pmm.FirstFit
import ScrapOS.Pmm.Passes
import ScrapOS.Buddy.Init
import ScrapOS.Buddy.Chopping
import ScrapOS.Buddy.Seeding
import ScrapOS.Buddy.Handover
import ScrapOS.Buddy.SeedCoalesced
import ScrapOS.Vmm.Basic
import ScrapOS.Vmm.Build
import ScrapOS.Vmm.Init
import ScrapOS.Ownership.Basic
import ScrapOS.Mm.Machine
import ScrapOS.Vmm.AddressSpace
import ScrapOS.Mm.Ownership
import ScrapOS.Slab.Basic
import ScrapOS.Slab.Slots
import ScrapOS.Slab.Ledger
import ScrapOS.Slab.Regions
import ScrapOS.Slab.Refinement
import ScrapOS.Slab.Operations
import ScrapOS.Slab.Runs
import ScrapOS.Slab.Safety
import ScrapOS.Slab.Accounting
import ScrapOS.Slab.Requests
import ScrapOS.Slab.Sizes
import ScrapOS.Console.Basic
import ScrapOS.Console.Bounds
import ScrapOS.Console.Pixels
import ScrapOS.Console.Picture
import ScrapOS.Console.Screen
import ScrapOS.Console.Runs
import ScrapOS.Pic8259.Basic
import ScrapOS.Irq.Devices
import ScrapOS.Irq.Pic
import ScrapOS.Irq.Dispatch
import ScrapOS.Serial.Text
import ScrapOS.Drivers.Handlers
import ScrapOS.Drivers.Runs
import ScrapOS.Drivers.Delivery
import ScrapOS.Arch.Tables
import ScrapOS.Reports.Basic
import ScrapOS.Arch.CrashDump
import ScrapOS.Uart16550.Basic
import ScrapOS.Serial.Polling
import ScrapOS.Slab.Footprint
import ScrapOS.Kernel.Memory
import ScrapOS.Kernel.Isolation
import ScrapOS.Sched.Transcript
import ScrapOS.Kernel.Tasks
import ScrapOS.Kernel.Multitasking
import ScrapOS.Kernel.Statistics
