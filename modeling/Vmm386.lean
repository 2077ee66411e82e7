import Vmm386.Lib.Bits
import Vmm386.Vide.Confinement
import Vmm386.Fs.BufferErrors
import Vmm386.Fs.StaleWrites
import Vmm386.Fs.InodeWrites
import Vmm386.Fs.InodeCacheRuns
import Vmm386.Fs.BlockExclusivity
import Vmm386.Fs.Allocation
import Vmm386.Fs.IndirectBlocks
import Vmm386.Fs.FileRuns
import Vmm386.Mm.Sbrk
import Vmm386.Irq.Queue
import Vmm386.Kbd.CookedTheorems
import Vmm386.Tasks.SemaphoreTheorems
import Vmm386.Syslogd.SyslogRuns
import Vmm386.Tasks.KillTheorems
import Vmm386.Mm.PageDirTheorems
import Vmm386.Vmach.A20
import Vmm386.Vmach.RoundTrip
import Vmm386.Vpic.Delivery
import Vmm386.Vpic.Vectors
import Vmm386.Vpic.Halt
import Vmm386.Vcmos.RtcTheorems
import Vmm386.Vbios.DiskTheorems
import Vmm386.Modules.LoaderRuns
import Vmm386.Fs.Release
import Vmm386.Vfloppy.MediaRuns
import Vmm386.Tasks.AddTaskRuns
import Vmm386.Fs.CreateFileTheorems
import Vmm386.Spooler.SpoolRuns
import Vmm386.Mm.ContiguousPages
import Vmm386.Mm.PageMap
import Vmm386.Mm.ForeignAccess
import Vmm386.Fs.MkfsLayout
import Vmm386.Fs.UsedBlocks
import Vmm386.Fs.DirScan
import Vmm386.Fs.DirScanTheorems
import Vmm386.Lib.Programs
import Vmm386.Fs.Path
import Vmm386.Fs.PathTheorems
import Vmm386.Fs.PathEnds
import Vmm386.Fs.PathLinks
import Vmm386.Fs.PathBuffer
import Vmm386.Time.ExpandTime
import Vmm386.Time.ExpandTimeTheorems
import Vmm386.Misc.StrtoulTheorems
import Vmm386.Misc.Printf
import Vmm386.Misc.PrintfNumbers
import Vmm386.Hd.Partitions
import Vmm386.Irq.Masks
import Vmm386.Misc.PrintfFields
import Vmm386.Misc.PrintfConversions
import Vmm386.Misc.PrintfTheorems
import Vmm386.Misc.PrintfRuns
import Vmm386.Modules.Strip
import Vmm386.Modules.StripRelocs
import Vmm386.Modules.StripSymbols
import Vmm386.Modules.StripTheorems
import Vmm386.Misc.Kmsg
import Vmm386.Misc.KmsgTheorems
import Vmm386.Modules.LoadFile
import Vmm386.Modules.LoadFileTheorems
import Vmm386.Time.TimersTheorems
import Vmm386.Vdma.Dma
import Vmm386.Vdma.DmaTheorems
import Vmm386.Ramdisk.Ramdisk
import Vmm386.Ramdisk.RamdiskTheorems
import Vmm386.Hd.FsSectors
import Vmm386.Vmach.VectorFetch
import Vmm386.Vmach.PortInput
import Vmm386.Vmach.RepString
import Vmm386.Vpit.Pit
import Vmm386.Vpit.PitTheorems
import Vmm386.Vpit.Heartbeat
import Vmm386.Fd.Floppy
import Vmm386.Fd.FloppyTheorems
import Vmm386.Fd.FloppyReads
import Vmm386.Vbios.Geometry
import Vmm386.Vbios.GeometryTheorems
import Vmm386.Hd.Ide
import Vmm386.Hd.IdeTheorems
import Vmm386.Hd.IdeErrors
import Vmm386.Vmach.InsLen
import Vmm386.Vmach.InsLenTheorems
import Vmm386.Vmach.RomSkip
import Vmm386.Misc.SetupDmaTheorems
import Vmm386.Vbios.ScrollTheorems
import Vmm386.Vbios.PrintTheorems
import Vmm386.Vkbd.Vkbd
import Vmm386.Vkbd.RingTheorems
import Vmm386.Vkbd.ShiftFocus
import Vmm386.Vkbd.ShiftFocusTheorems
import Vmm386.Fd.GetResults
import Vmm386.Fs.DeviceNames
import Vmm386.Mm.CheckArea
import Vmm386.Tasks.ListsTheorems
import Vmm386.Shell.CommandTheorems
import Vmm386.Vbios.Video
import Vmm386.Vbios.FrameTheorems
import Vmm386.Vbios.Cells
import Vmm386.Vbios.KbdBufferTheorems
import Vmm386.Vbios.KbdBufferRuns
import Vmm386.Tty.Readline
import Vmm386.Tty.ReadlineTheorems
import Vmm386.Tty.HistoryTheorems
import Vmm386.Tty.ReadlineRuns
import Vmm386.Lib.Pieces
import Vmm386.Lib.TwoWay
import Vmm386.Malloc.Malloc
import Vmm386.Malloc.Layout
import Vmm386.Malloc.FreeBlocks
import Vmm386.Malloc.MallocBlocks
import Vmm386.Malloc.FindBlocks
