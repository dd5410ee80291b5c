import OpenNE.Base.Exec
import OpenNE.Base.Codec
import OpenNE.Base.Run
import OpenNE.Base.Span
import OpenNE.Base.Arc
import OpenNE.Memory.Paging
import OpenNE.Memory.PageWalk
import OpenNE.Memory.PageStore
import OpenNE.Memory.BitMap
import OpenNE.Memory.Pool
import OpenNE.Memory.PoolRun
import OpenNE.Memory.PoolBound
import OpenNE.Memory.Heap
import OpenNE.Memory.HeapRun
import OpenNE.Memory.HeapFree
import OpenNE.Memory.HeapCheck
import OpenNE.Memory.HeapPlace
import OpenNE.Process.UserProcess
import OpenNE.Process.Team
import OpenNE.Process.TeamRun
import OpenNE.Process.MemoryList
import OpenNE.Process.MemoryAccount
import OpenNE.Process.Fault
import OpenNE.Process.Coherent
import OpenNE.Process.Lifecycle
import OpenNE.Auth.User
import OpenNE.Network.IpcMsg
import OpenNE.Network.IpcPass
import OpenNE.Loader.Pef
import OpenNE.Boot.Handover
import OpenNE.Boot.Containment
import OpenNE.NeFS.Untouched
import OpenNE.NeFS.CatalogRun
import OpenNE.NeFS.Stored
import OpenNE.NeFS.ParentPath
import OpenNE.NeFS.Removal
import OpenNE.NeFS.ForkSpace
import OpenNE.NeFS.RoundTrip
import OpenNE.NeFS.LocalSearch
import OpenNE.NeFS.ReadOnly
import OpenNE.NeFS.Walks
import OpenNE.NeFS.ForkWalk
import OpenNE.NeFS.FileMgr
import OpenNE.NeFS.Accounting
import OpenNE.NeFS.PartitionValid
import OpenNE.NeFS.EpmTable
import OpenNE.Storage.Mapping
import OpenNE.Storage.DiskSize
import OpenNE.Memory.TableCrc
import OpenNE.Process.BusyTimer
import OpenNE.Process.RoundRobin
import OpenNE.Process.Pacing
import OpenNE.Memory.StoreFlag
import OpenNE.Storage.AhciTable
import OpenNE.Process.CoreSelection
import OpenNE.Memory.ByteMoves
import OpenNE.Boot.StringCompare
import OpenNE.Boot.StringToLong
import OpenNE.Base.Json
import OpenNE.Pci.Config
import OpenNE.Pci.Iterator
import OpenNE.Storage.AhciSelect
import OpenNE.Acpi.Find
import OpenNE.Acpi.Madt
import OpenNE.Boot.FileReader
import OpenNE.Base.JsonBounds
import OpenNE.Base.KStringRun
import OpenNE.Base.Numeral
import OpenNE.Base.Printing
import OpenNE.Process.PanicText
import OpenNE.Base.StringSearch
import OpenNE.Network.IpAddress
import OpenNE.NeFS.FileModes
import OpenNE.Base.MutableArray
import OpenNE.NeFS.Indexer
import OpenNE.Memory.Pmm
import OpenNE.Base.Since
import OpenNE.Process.Semaphore
import OpenNE.Process.WaitTimers
import OpenNE.Base.SerialRead
import OpenNE.Base.AtExit
import OpenNE.Base.StringScan
import OpenNE.Base.ForwardCopy
import OpenNE.Memory.NameFields
import OpenNE.Network.Equality
import OpenNE.Memory.ByteHeap
import OpenNE.NeFS.ForkStore
import OpenNE.NeFS.Directory
import OpenNE.NeFS.MountedRun
import OpenNE.Interrupt.Gate
import OpenNE.Interrupt.Pic
import OpenNE.Base.LastWrite
import OpenNE.Memory.Translation
import OpenNE.Base.Grid
import OpenNE.Display.Framebuffer
import OpenNE.Display.Text
import OpenNE.Base.SerialWrite
import OpenNE.Boot.ImageLoad
import OpenNE.Storage.AtaWords
import OpenNE.Pci.ConfigRun
import OpenNE.Process.SwitchRun
import OpenNE.NeFS.JournalRun
