import Xtc.Lib.Bits
import Xtc.Lib.Run
import Xtc.Lib.Slave
import Xtc.Lib.Ram
import Xtc.Lib.WriteBack
import Xtc.Lib.Cut
import Xtc.Lib.Exchange
import Xtc.Core.Package
import Xtc.Core.Opdec
import Xtc.Core.Decode
import Xtc.Core.Fetch
import Xtc.Core.FetchStream
import Xtc.Core.Fetchdata
import Xtc.Core.Memory
import Xtc.Core.Alu
import Xtc.Core.Execute
import Xtc.Core.Privilege
import Xtc.Core.Backend
import Xtc.Core.Scoreboard
import Xtc.Core.Ledger
import Xtc.Core.Squash
import Xtc.Core.WriteOnce
import Xtc.Core.Operands
import Xtc.Core.ZeroRegister
import Xtc.Core.Processor
import Xtc.Core.TrapEntry
import Xtc.Core.Mode
import Xtc.Core.Resume
import Xtc.Cache.Icache
import Xtc.Cache.IcacheFill
import Xtc.Cache.IcacheFetch
import Xtc.Cache.Dcache
import Xtc.Cache.DcacheControl
import Xtc.Cache.DcacheData
import Xtc.Cache.DcacheStep
import Xtc.Cache.DcacheTransparent
import Xtc.Cache.DcacheServe
import Xtc.Cache.DcacheThrough
import Xtc.Linker.Relax
import Xtc.Linker.Site
import Xtc.Linker.Rewrite
import Xtc.Linker.Preserve
import Xtc.Linker.Emit
import Xtc.Linker.Value
import Xtc.Linker.Layout
import Xtc.Tools.Kept
import Xtc.Tools.Disassemble
import Xtc.Tools.Found
import Xtc.Tools.Stated
import Xtc.Bus.Wishbone
import Xtc.Bus.Arbiter
import Xtc.Bus.Mux
import Xtc.Bus.IoChain
import Xtc.Cache.DcacheWriteback
import Xtc.Cache.DcacheFlush
import Xtc.App.Zstdio
import Xtc.App.ZstdioBounds
import Xtc.Softsim.Cpu
import Xtc.Softsim.Executor
import Xtc.Softsim.Guest
import Xtc.Cache.IcacheDeliver
import Xtc.Cache.IcacheFlush
import Xtc.Bus.DataBus
import Xtc.Core.ControlFlow
import Xtc.Core.Flags
import Xtc.Core.Clauses
import Xtc.Core.Lanes
import Xtc.Linker.Delete
import Xtc.Tools.Operand
import Xtc.Core.Multiply
import Xtc.Video.Fill
import Xtc.Lib.RingBuffer
import Xtc.Uart.Fifo
import Xtc.Uart.Read
import Xtc.Uart.Receiver
import Xtc.Uart.Frame
import Xtc.Softsim.Compare
import Xtc.Softsim.Immediate
import Xtc.Softsim.ByteMemory
import Xtc.App.ZstdioText
import Xtc.App.ZstdioStandard
import Xtc.Lib.CString
import Xtc.App.Zposix
import Xtc.App.Zfmem
import Xtc.Tools.Suffix
import Xtc.Tools.LineText
import Xtc.Tools.PrintedText
import Xtc.App.Ffwrap
import Xtc.App.MonitorNumber
import Xtc.App.Disk
import Xtc.App.Delay
import Xtc.App.SdInit
import Xtc.App.Stream
import Xtc.App.MonitorSplit
import Xtc.App.Monitor
import Xtc.Lib.Dram
import Xtc.Lib.Linear
import Xtc.Sdram.Controller
import Xtc.Sdram.System
import Xtc.Lib.Due
import Xtc.Sdram.Commands
import Xtc.Sdram.Progress
import Xtc.Sdram.Refresh
import Xtc.FatFs.Read
import Xtc.FatFs.Seek
import Xtc.Lib.Trace
import Xtc.FatFs.Handles
