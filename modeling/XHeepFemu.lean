import XHeepFemu.Lib.Region
import XHeepFemu.Hw.MemMap
import XHeepFemu.Hw.Pmp
import XHeepFemu.Runtime.Sbrk
import XHeepFemu.Tee.Trap
import XHeepFemu.Lib.Mmio
import XHeepFemu.Hal.Bitfield
import XHeepFemu.Hal.Uart
import XHeepFemu.Runtime.Console
import XHeepFemu.Lib.EscapedLines
import XHeepFemu.Scpi.Copy
import XHeepFemu.Tee.Handler
import XHeepFemu.Tee.UartLoop
import XHeepFemu.Tee.Service
import XHeepFemu.Tee.Transport
import XHeepFemu.Scpi.Lexer
import XHeepFemu.Scpi.Parser
import XHeepFemu.Scpi.Block
import XHeepFemu.Scpi.Parameter
import XHeepFemu.Scpi.Input
import XHeepFemu.Scpi.Keeps
import XHeepFemu.Tee.InferData
import XHeepFemu.Scpi.Units
import XHeepFemu.Scpi.Buffer
import XHeepFemu.Tee.Isolation
import XHeepFemu.Hal.I2c
import XHeepFemu.Lib.SplitCounter
import XHeepFemu.Hal.RvTimer
import XHeepFemu.Tee.Counters
import XHeepFemu.Hal.Gpio
import XHeepFemu.Hal.GpioTrigger
import XHeepFemu.Hal.GpioPending
import XHeepFemu.Hal.PowerManager
import XHeepFemu.Host.MemImage
import XHeepFemu.Runtime.Transmit
import XHeepFemu.Hw.Core
import XHeepFemu.Hal.PowerGateCore
import XHeepFemu.Tee.Reboot
import XHeepFemu.Hal.RvTimerTick
import XHeepFemu.Hal.I2cFormat
import XHeepFemu.Hal.UartConfig
import XHeepFemu.Apps.FlashClock
import XHeepFemu.Hal.GpioPins
import XHeepFemu.Hal.MmioCopy
import XHeepFemu.Hal.RvTimerArm
import XHeepFemu.Apps.FlashTransfer
import XHeepFemu.Host.Energy
import XHeepFemu.Apps.FlashBus
import XHeepFemu.Apps.FlashWait
import XHeepFemu.Lib.Ring
import XHeepFemu.Lib.KeyPath
import XHeepFemu.Lib.Positional
import XHeepFemu.Scpi.Fifo
import XHeepFemu.Scpi.Registers
import XHeepFemu.Scpi.Status
import XHeepFemu.Scpi.StatusByte
import XHeepFemu.Scpi.StatusRuns
import XHeepFemu.Scpi.Summaries
import XHeepFemu.Scpi.ErrorQueue
import XHeepFemu.Scpi.Match
import XHeepFemu.Scpi.Pattern
import XHeepFemu.Scpi.Spelling
import XHeepFemu.Scpi.Header
import XHeepFemu.Scpi.Datum
import XHeepFemu.Scpi.CommandLine
import XHeepFemu.Scpi.Dispatch
import XHeepFemu.Scpi.NumberText
import XHeepFemu.Scpi.Result
import XHeepFemu.Scpi.ParamValue
import XHeepFemu.Tee.Session
import XHeepFemu.Tee.Inference
import XHeepFemu.Tee.Answer
import XHeepFemu.Scpi.Expression
import XHeepFemu.Lib.Serial
import XHeepFemu.Hw.Plic
import XHeepFemu.Hal.RvPlic
import XHeepFemu.Hal.PlicTable
import XHeepFemu.Scpi.CommandNumbers
