import M33mu.Lib.Bits
import M33mu.NvicIsolation
import M33mu.Attribution
import M33mu.ContextSwitch
import M33mu.CpuIsolation
import M33mu.Exclusives
import M33mu.FaultRecords
import M33mu.HandlerReturn
import M33mu.ItAgreement
import M33mu.ItEntry
import M33mu.Masking
import M33mu.NsCalls
import M33mu.Preemption
import M33mu.SecureEntry
import M33mu.SystemReset
import M33mu.TransferFault
import M33mu.Sleep
import M33mu.SpecialRegs
import M33mu.FaultEntry
import M33mu.StackLimit
import M33mu.SpWrites
import M33mu.StoreSeen
import M33mu.PcOperand
import M33mu.Branches
import M33mu.DualSpace
import M33mu.SauProgram
import M33mu.MmioBus
import M33mu.ByteAccess
import M33mu.SpiFlash
import M33mu.TisFraming
import M33mu.Breakpoints
import M33mu.UsbipBuffer
import M33mu.UsbipAnswers
import M33mu.FlashLock
import M33mu.Gpio
import M33mu.Mpcbb
import M33mu.ImageFiles
import M33mu.Stm32Usb
import M33mu.GdbPackets
import M33mu.DebugLoop
import M33mu.SysTickPeriod
import M33mu.Nrf5340Timers
import M33mu.MpuFetch
import M33mu.SubwordWrites
import M33mu.WordAccess
import M33mu.Stm32Spi
import M33mu.Nrf5340Wdt
import M33mu.FlagProbe
import M33mu.Shifts
import M33mu.LongMultiply
import M33mu.LimbChains
import M33mu.HostArithmetic
import M33mu.ArmArithmetic
import M33mu.GdbReplies
import M33mu.GdbMemory
import M33mu.GdbTargetXml
import M33mu.BlockProtect
import M33mu.SpiCells
import M33mu.ActiveBits
import M33mu.ActiveRuns
import M33mu.UartIo
import M33mu.SpiTransfer
import M33mu.Stm32Usart
import M33mu.RegBlocks
import M33mu.Lib.Patch
import M33mu.FlashSectors
import M33mu.NorFlash
import M33mu.UsbPackets
import M33mu.Lib.Linked
import M33mu.Lib.Agenda
import M33mu.Scheduler
import M33mu.UsbipPayload
import M33mu.UsbipPolls
import M33mu.Lib.ByteMem
import M33mu.Stm32Eth
import M33mu.EthMemory
import M33mu.EthTransmit
import M33mu.EthReceive
import M33mu.EthBus
import M33mu.BitFields
import M33mu.PersistLayout
import M33mu.Lpit
import M33mu.Lib.Since
import M33mu.Exti
import M33mu.Stm32Rng
import M33mu.UsartQuiet
import M33mu.TzscGuard
import M33mu.Lib.Veil
import M33mu.SecureRam
import M33mu.Confinement
import M33mu.ConfinedExecute
import M33mu.ConfinedRuns
import M33mu.Lib.WordRow
import M33mu.CallFrames
import M33mu.Lib.Fields
import M33mu.Thumb
import M33mu.ThumbDecode
import M33mu.ThumbSpace
import M33mu.DeviceDma
import M33mu.Nrf5340Serial
import M33mu.Nrf5340Spim
import M33mu.Nrf5340Uarte
import M33mu.Nrf5340UarteTx
import M33mu.Lib.Leads
import M33mu.Lib.ByteValues
import M33mu.ThumbArch
import M33mu.ThumbMemory
import M33mu.ThumbData
import M33mu.ThumbExecute
import M33mu.ThumbTold
import M33mu.ThumbWindow
import M33mu.ThumbRuns
import M33mu.CopyLoop
