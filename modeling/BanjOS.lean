import BanjOS.Lib.ByteMem
import BanjOS.Lib.Chain
import BanjOS.Lib.Run
import BanjOS.Lib.Trace
import BanjOS.Lib.RadixTree
import BanjOS.Lib.Ring
import BanjOS.Lib.RoundRobin
import BanjOS.Lib.BoundedFifo
import BanjOS.Lib.LinkQueue
import BanjOS.Lib.Prefixes
import BanjOS.Lib.Polling
import BanjOS.Lib.Hoare
import BanjOS.Lib.Encoding
import BanjOS.Lib.Numerals
import BanjOS.Lib.Lockstep
import BanjOS.Lib.BlockFold
import BanjOS.Lib.SineTable
import BanjOS.Lib.BitFields
import BanjOS.Lib.Descriptors
import BanjOS.Lib.I8259
import BanjOS.Lib.Paging
import BanjOS.Basic
import BanjOS.MultibootTags.Regions
import BanjOS.MultibootTags.Tags
import BanjOS.PageAllocator.Frames
import BanjOS.PageTable.Entry
import BanjOS.PageTable.Walk
import BanjOS.PageTable.Init
import BanjOS.PageAllocator.Demand
import BanjOS.PageAllocator.HeapRuns
import BanjOS.PageAllocator.Translation
import BanjOS.PageAllocator.Spare
import BanjOS.PageAllocator.Contents
import BanjOS.PageAllocator.Hardware
import BanjOS.PageAllocator.Memtest
import BanjOS.Allocator.Kmalloc
import BanjOS.Allocator.Dedicated
import BanjOS.Allocator.FreedPages
import BanjOS.Allocator.Growth
import BanjOS.Allocator.Pools
import BanjOS.Allocator.PoolRuns
import BanjOS.Allocator.PoolCounts
import BanjOS.Allocator.Paged
import BanjOS.Allocator.PagedRuns
import BanjOS.Allocator.MachineRuns
import BanjOS.Processes.Queues
import BanjOS.Processes.Frames
import BanjOS.Processes.Runs
import BanjOS.Processes.Fairness
import BanjOS.Processes.Fifo
import BanjOS.Lib.X86
import BanjOS.Isr.Handler
import BanjOS.Isr.Switch
import BanjOS.Isr.Nested
import BanjOS.Isr.Activations
import BanjOS.Isr.Ownership
import BanjOS.Isr.SwitchRuns
import BanjOS.Isr.NewThread
import BanjOS.Isr.Tables
import BanjOS.Isr.Pic
import BanjOS.Isr.Dispatch
import BanjOS.Devices.RingBuffer
import BanjOS.Devices.RingRuns
import BanjOS.Devices.Serial
import BanjOS.Devices.Keyboard
import BanjOS.Devices.Ata
import BanjOS.Devices.AtaCalls
import BanjOS.Devices.AtaReads
import BanjOS.Devices.AtaWaiters
import BanjOS.Devices.Identify
import BanjOS.Devices.Ps2
import BanjOS.Ext2.Blocks
import BanjOS.Ext2.FileRead
import BanjOS.Ext2.ReadBounds
import BanjOS.Ext2.Holes
import BanjOS.Ext2.Mount
import BanjOS.Ext2.InodeLookup
import BanjOS.Ext2.Probe
import BanjOS.Ext2.Scratch
import BanjOS.Ext2.ScratchRuns
import BanjOS.Ext2.Directory
import BanjOS.Ext2.ReadErrors
import BanjOS.Ext2.Addressing
import BanjOS.Ext2.IndirectIndices
import BanjOS.Console.Strings
import BanjOS.Console.Printk
import BanjOS.Console.Format
import BanjOS.Console.Rendering
import BanjOS.Console.Decimal
import BanjOS.Console.Vga
import BanjOS.Md5.Transform
import BanjOS.Md5.Context
import BanjOS.Boot.Start
import BanjOS.Boot.Handover
import BanjOS.Kmain.Memory
import BanjOS.Kmain.DriveInit
import BanjOS.Kmain.KeyboardIo
import BanjOS.Kmain.Loop
