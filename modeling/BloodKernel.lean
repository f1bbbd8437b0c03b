import BloodKernel.Lib.Run
import BloodKernel.Lib.Bytes
import BloodKernel.Lib.Fifo
import BloodKernel.Lib.Ring
import BloodKernel.Lib.Gap
import BloodKernel.Lib.Search
import BloodKernel.Lib.Batch
import BloodKernel.Lib.Window
import BloodKernel.Kernel.Types
import BloodKernel.Kernel.Sched
import BloodKernel.Kernel.SchedCreate
import BloodKernel.Kernel.SchedYield
import BloodKernel.Kernel.SchedRunning
import BloodKernel.Kernel.Spinlock
import BloodKernel.Kernel.Msg
import BloodKernel.Kernel.Can
import BloodKernel.Kernel.CanFifo
import BloodKernel.Kernel.CanPreempt
import BloodKernel.Kernel.Isotp
import BloodKernel.Kernel.IsotpSend
import BloodKernel.Kernel.Sd
import BloodKernel.Kernel.Log
import BloodKernel.Kernel.LogFailure
import BloodKernel.Kernel.LogCycles
import BloodKernel.Kernel.Elf
import BloodKernel.Kernel.Loader
import BloodKernel.Drivers.Barrier
import BloodKernel.Kernel.Flash
import BloodKernel.Drivers.Paging
import BloodKernel.Drivers.PagingTables
import BloodKernel.Drivers.PagingRuns
import BloodKernel.Drivers.PagingFrames
import BloodKernel.Drivers.PagingTranslate
import BloodKernel.Drivers.PagingIdentity
import BloodKernel.Drivers.PagingMapped
import BloodKernel.Drivers.Dma
import BloodKernel.Drivers.ByteRing
import BloodKernel.Drivers.Keyboard
import BloodKernel.Drivers.Serial
import BloodKernel.Drivers.Sha256
import BloodKernel.Drivers.Aes
import BloodKernel.Drivers.Vga
import BloodKernel.Drivers.Rtl8139
import BloodKernel.Drivers.PagingCount
import BloodKernel.Drivers.PagingAlloc
import BloodKernel.Drivers.PagingRollback
import BloodKernel.Drivers.PagingPhysical
import BloodKernel.Drivers.DmaBases
import BloodKernel.Drivers.Rtl8139Init
import BloodKernel.Drivers.Ac97
import BloodKernel.Drivers.Iommu
import BloodKernel.Drivers.Uhci
import BloodKernel.Drivers.BusMasters
import BloodKernel.Arch.Mailbox
import BloodKernel.Arch.MailboxSteps
import BloodKernel.Drivers.Pic
import BloodKernel.Drivers.Numa
import BloodKernel.Arch.FlashBoot
import BloodKernel.Arch.Canfd
import BloodKernel.Drivers.Ata
import BloodKernel.Drivers.InterruptRouting
import BloodKernel.Drivers.LongMode
import BloodKernel.Drivers.LongModeWalk
import BloodKernel.Arch.Timer
import BloodKernel.Drivers.Pcid
import BloodKernel.Arch.Multicore
import BloodKernel.Arch.Pio
import BloodKernel.Lib.Keyed
import BloodKernel.Lib.Flat
import BloodKernel.Lib.Records
import BloodKernel.Arch.WifiAp
import BloodKernel.Arch.WifiApStations
import BloodKernel.Arch.WifiSta
import BloodKernel.Arch.Enet
import BloodKernel.Arch.WifiSec
import BloodKernel.Lib.Descriptors
import BloodKernel.Kernel.SchedRound
import BloodKernel.Kernel.SchedStacks
import BloodKernel.Kernel.CanSend
import BloodKernel.Kernel.IsotpRecv
import BloodKernel.Kernel.SdBlocks
import BloodKernel.Kernel.ElfWrites
import BloodKernel.Kernel.Kprintf
import BloodKernel.Kernel.MemMap
import BloodKernel.Kernel.Delay
import BloodKernel.Kernel.FlashWrite
import BloodKernel.Drivers.Rtl8139Reads
import BloodKernel.Drivers.KeyboardWait
import BloodKernel.Drivers.VgaBox
import BloodKernel.Drivers.Rtc
import BloodKernel.Drivers.RtcTimestamp
import BloodKernel.Drivers.SerialInit
import BloodKernel.Drivers.Smbios
import BloodKernel.Drivers.SmbiosTable
import BloodKernel.Drivers.LowMemory
import BloodKernel.Drivers.SmbiosEntry
import BloodKernel.Drivers.SmbiosReads
import BloodKernel.Drivers.AcpiRsdp
import BloodKernel.Drivers.AcpiMadt
import BloodKernel.Drivers.AtaRange
import BloodKernel.Drivers.DmaRemaining
import BloodKernel.Drivers.UhciTransfer
import BloodKernel.Drivers.NumaPreferred
import BloodKernel.Lib.Capped
import BloodKernel.Drivers.Pci
import BloodKernel.Drivers.PciScan
import BloodKernel.Drivers.RandomBytes
import BloodKernel.Drivers.Sha256Writes
import BloodKernel.Drivers.AcpiWalks
import BloodKernel.Drivers.PitDelay
import BloodKernel.Drivers.PciWrite
import BloodKernel.Drivers.Msi
import BloodKernel.Drivers.MsiWalks
import BloodKernel.Drivers.Transactional
import BloodKernel.Drivers.TransactionalContext
import BloodKernel.Arch.CanfdRam
import BloodKernel.Arch.PageWrites
import BloodKernel.Arch.WifiScans
import BloodKernel.Arch.WifiSecWrites
import BloodKernel.Arch.WifiMic
import BloodKernel.Arch.PacketMemory
import BloodKernel.Drivers.ExceptionMgmt
import BloodKernel.Drivers.MachineCheck
import BloodKernel.Drivers.Simd
import BloodKernel.Drivers.SimdChecksum
import BloodKernel.Drivers.Hpet
import BloodKernel.Drivers.CacheCoherency
import BloodKernel.Drivers.Microcode
import BloodKernel.Drivers.CpuTopology
import BloodKernel.Kernel.MsgLocked
import BloodKernel.Drivers.Atomic64
import BloodKernel.Drivers.AtomicLock
import BloodKernel.Drivers.AtomicUpdate
import BloodKernel.Arch.InterruptStubs
import BloodKernel.Drivers.TransactionalLock
import BloodKernel.Arch.ContextSwitch
import BloodKernel.Arch.Interrupts
import BloodKernel.Drivers.IoApic
import BloodKernel.Drivers.IoApicRoutes
import BloodKernel.Drivers.Rtl8139Transmit
import BloodKernel.Drivers.Floppy
import BloodKernel.Drivers.FloppyStore
import BloodKernel.Arch.WifiApHistory
import BloodKernel.Arch.WifiJoin
import BloodKernel.Kernel.SchedReturn
