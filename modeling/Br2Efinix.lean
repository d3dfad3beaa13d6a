import Br2Efinix.Lib.Machine
import Br2Efinix.Lib.Ring
import Br2Efinix.Emmc.Host
import Br2Efinix.Emmc.Tuning
import Br2Efinix.Emmc.TuningSelect
import Br2Efinix.Emmc.Dma
import Br2Efinix.Emmc.UBootTuning
import Br2Efinix.Emmc.AdmaTable
import Br2Efinix.Emmc.Pio
import Br2Efinix.Emmc.Core
import Br2Efinix.Emmc.Protocol
import Br2Efinix.Emmc.Phase
import Br2Efinix.Emmc.Sequence
import Br2Efinix.Emmc.Completion
import Br2Efinix.Tsemac.TxRing
import Br2Efinix.Tsemac.TxOwnership
import Br2Efinix.Tsemac.TxOrder
import Br2Efinix.Tsemac.TxReclaim
import Br2Efinix.EfxDma.Chain
import Br2Efinix.EfxDma.Prep
import Br2Efinix.Tsemac.Checksum
import Br2Efinix.EfxDma.Ownership
import Br2Efinix.EfxDma.Schedule
import Br2Efinix.Lib.Table
import Br2Efinix.Tsemac.RxRing
import Br2Efinix.Tsemac.RxBuffers
import Br2Efinix.Tsemac.RxOrder
import Br2Efinix.Tsemac.TxBuffers
import Br2Efinix.Emmc.Errors
import Br2Efinix.Emmc.Modes
import Br2Efinix.Emmc.SetIos
import Br2Efinix.Emmc.TunedModes
import Br2Efinix.Emmc.Retune
import Br2Efinix.Emmc.Undisturbed
import Br2Efinix.Tsemac.UBootRxOrder
import Br2Efinix.Emmc.UBootRecover
import Br2Efinix.Emmc.UBootRestored
import Br2Efinix.Rproc.IpiHook
import Br2Efinix.Rproc.Inbound
import Br2Efinix.Rproc.Kicks
import Br2Efinix.Rproc.Quiescence
import Br2Efinix.Rproc.Lifecycle
import Br2Efinix.Spi.Controller
import Br2Efinix.Spi.Select
import Br2Efinix.Spi.LinuxSelect
import Br2Efinix.Spi.UBootSelect
import Br2Efinix.Spi.UBootTransfer
import Br2Efinix.Spi.LinuxTransfer
import Br2Efinix.Uart.Receive
import Br2Efinix.Uart.Transmit
import Br2Efinix.EfxDma.Status
import Br2Efinix.Tsemac.ErrorStats
import Br2Efinix.Tsemac.ErrHandler
import Br2Efinix.Tsemac.Open
import Br2Efinix.Tsemac.XmitFailure
import Br2Efinix.Tsemac.TxStats
import Br2Efinix.I2c.Slave
import Br2Efinix.EvSoc.Buffers
import Br2Efinix.SdHost.SendCmd
import Br2Efinix.Tsemac.Filter
import Br2Efinix.Tsemac.Indexes
import Br2Efinix.Tsemac.MdioDivider
import Br2Efinix.Emmc.PioTransfer
import Br2Efinix.Emmc.Bounce
import Br2Efinix.Emmc.TuningFlag
import Br2Efinix.EfxDma.Cyclic
import Br2Efinix.Emmc.ClockDivider
import Br2Efinix.Emmc.UBootPio
import Br2Efinix.Emmc.UBootScans
import Br2Efinix.Gpio.InterruptEnables
import Br2Efinix.Gpio.Interleaving
import Br2Efinix.Spi.ClockDivider
import Br2Efinix.Uart.Config
import Br2Efinix.Watchdog.Config
import Br2Efinix.EfxDma.Channels
import Br2Efinix.I2c.MasterXfer
import Br2Efinix.Rproc.FirmwareWindow
import Br2Efinix.Watchdog.Timeleft
import Br2Efinix.Spi.DummyCycle
import Br2Efinix.I2c.SlaveProtocol
import Br2Efinix.Timer.Count
import Br2Efinix.EvSoc.Mmap
import Br2Efinix.CharDev.Write
import Br2Efinix.Tsemac.UBootTx
import Br2Efinix.Camera.Photos
import Br2Efinix.Camera.Json
import Br2Efinix.Framebuffer.Probe
import Br2Efinix.Lib.Fields
import Br2Efinix.SdHost.Capacity
import Br2Efinix.Lib.Paint
import Br2Efinix.Rproc.Polling
import Br2Efinix.Tsemac.Mdio
import Br2Efinix.EvSoc.Overlay
import Br2Efinix.Lib.Json
import Br2Efinix.Camera.Reply
import Br2Efinix.Lib.CString
import Br2Efinix.Lib.Terminal
import Br2Efinix.Cli.Editor
import Br2Efinix.Cli.History
import Br2Efinix.Cli.Keys
import Br2Efinix.Cli.Session
import Br2Efinix.Cli.Display
import Br2Efinix.Cli.Args
import Br2Efinix.Cli.Commands
import Br2Efinix.Cli.Console
