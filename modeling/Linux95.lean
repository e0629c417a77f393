import Linux95.Base.Wp
import Linux95.Storage.Device
import Linux95.Fat32.Confinement
import Linux95.Fat32.Contents
import Linux95.Fat32.Helpers
import Linux95.Fat32.Writer
import Linux95.Fat32.Geometry
import Linux95.Vfs.Descriptors
import Linux95.Vfs.Runs
import Linux95.Net.DnsMessage
import Linux95.Net.DnsResolver
import Linux95.Net.Packets
import Linux95.Net.Frames
import Linux95.Net.UdpRuns
import Linux95.Net.PingRuns
import Linux95.Fat32.Lookups
import Linux95.Fat32.Directories
import Linux95.Fat32.Names
import Linux95.Fat32.SameObjects
import Linux95.Base.Ring
import Linux95.Input.EventQueue
import Linux95.Base.Scan
import Linux95.Gui.WindowManager
import Linux95.Input.MouseQueue
import Linux95.Gui.WindowOrder
import Linux95.Gui.WindowRuns
import Linux95.Terminal.ShellSession
import Linux95.Terminal.TypedText
import Linux95.Gui.EditorFile
import Linux95.Gui.EditorRuns
import Linux95.Net.Bindings
import Linux95.Base.Layers
import Linux95.Gui.Renderer
import Linux95.Gui.Desktop
import Linux95.Gui.Redraw
import Linux95.Gui.RedrawParts
import Linux95.Base.LinkedTables
import Linux95.Memory.Physical
import Linux95.Memory.UserSpace
import Linux95.Memory.TableTrees
import Linux95.Memory.TableSteps
import Linux95.Memory.Spaces
import Linux95.Memory.Queries
import Linux95.Memory.Isolation
import Linux95.Memory.Heap
import Linux95.User.Elf
import Linux95.User.Loader
import Linux95.User.ImagePages
import Linux95.User.Loads
import Linux95.User.Reaping
import Linux95.User.Conservation
import Linux95.User.PageRuns
import Linux95.Fat32.FatTable
import Linux95.Fat32.Chains
import Linux95.Fat32.Allocation
import Linux95.Fat32.Slices
import Linux95.Fat32.Listings
import Linux95.Vfs.Listings
import Linux95.Gui.FileManagerModel
import Linux95.Gui.FileManagerRuns
import Linux95.Gui.FileManagerApp
import Linux95.Gui.FileManagerDialogs
import Linux95.Fat32.DirectorySlots
import Linux95.Storage.SingleFault
import Linux95.Fat32.DirectoryInsertion
import Linux95.Fat32.Publication
import Linux95.Fat32.GrowthOrder
import Linux95.Fat32.NewEntries
import Linux95.Fat32.ShortNames
import Linux95.Net.DnsNames
import Linux95.Net.Hostnames
import Linux95.Net.DnsAnswers
import Linux95.Net.DnsReplies
import Linux95.Base.FifoMap
import Linux95.Net.ArpCache
import Linux95.Net.Checksums
import Linux95.Drivers.ReceiveRing
import Linux95.Drivers.TransmitSlots
import Linux95.User.ElfArithmetic
import Linux95.User.ImageContents
import Linux95.User.ElfLoads
import Linux95.Base.RoundRobin
import Linux95.Input.MousePackets
import Linux95.User.Scheduler
import Linux95.Base.TextLines
import Linux95.Gui.EditorText
import Linux95.Terminal.Scrollback
import Linux95.Gui.EditorRefinement
import Linux95.Memory.UserPointers
import Linux95.Syscall.UserCopies
import Linux95.Syscall.Dispatch
import Linux95.Memory.BootMap
import Linux95.Memory.PageBitmap
import Linux95.Memory.PhysicalPages
import Linux95.Memory.PhysicalRuns
import Linux95.Memory.Bootstrap
import Linux95.Memory.BootstrapLayout
import Linux95.Memory.BootstrapWalk
import Linux95.Memory.RealMemory
import Linux95.Base.TableEntries
import Linux95.Memory.KernelPaging
import Linux95.Memory.KernelTree
import Linux95.Memory.FreePages
import Linux95.Memory.KernelOverlay
import Linux95.Memory.KernelMapping
import Linux95.Memory.KernelUnmapping
import Linux95.Memory.KernelMap
import Linux95.Memory.KernelRollback
import Linux95.Gui.FramebufferSetup
import Linux95.Base.Grid
import Linux95.Gui.FileManagerGrid
import Linux95.Gui.FileManagerSelection
import Linux95.Base.DiscreteLine
import Linux95.Gui.LineDrawing
import Linux95.Base.SaveUnder
import Linux95.Gui.Cursor
import Linux95.Fat32.Volume
import Linux95.Fat32.Walks
import Linux95.Fat32.Lookalikes
import Linux95.Fat32.Withdrawal
import Linux95.Fat32.MoveFaults
import Linux95.Base.Coroutines
import Linux95.Syscall.LifeCycle
import Linux95.Syscall.SupervisorSteps
import Linux95.Syscall.LifeRuns
import Linux95.Base.Forests
import Linux95.Base.Naming
import Linux95.Fat32.Ownership
import Linux95.Fat32.EntryEdits
import Linux95.Fat32.VolumeEdits
import Linux95.Fat32.EntryTransfers
import Linux95.Fat32.VolumeTree
import Linux95.Fat32.TreeCalls
import Linux95.Fat32.ReadyVolume
import Linux95.Fat32.FileData
import Linux95.Fat32.EntryFields
import Linux95.Fat32.FileCalls
import Linux95.Fat32.EntryCalls
import Linux95.Fat32.VolumeRuns
import Linux95.Fat32.ReadBack
import Linux95.Memory.AllocatorRefinement
import Linux95.Memory.PageSupply
import Linux95.User.LoadSupply
