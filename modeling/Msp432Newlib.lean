import Msp432Newlib.Effects.Program
import Msp432Newlib.Effects.Run
import Msp432Newlib.Effects.Monitor
import Msp432Newlib.Effects.Channel
import Msp432Newlib.Effects.Outline
import Msp432Newlib.Effects.History
import Msp432Newlib.Effects.Ledger
import Msp432Newlib.Streams.Delimited
import Msp432Newlib.Streams.Words
import Msp432Newlib.Layout.Blocks
import Msp432Newlib.Layout.Arena
import Msp432Newlib.Layout.Placement
import Msp432Newlib.Arm.Memory
import Msp432Newlib.Arm.Machine
import Msp432Newlib.Arm.Call
import Msp432Newlib.Machine.Core
import Msp432Newlib.Machine.LinkerScript
import Msp432Newlib.Syscalls.Basic
import Msp432Newlib.Heap.Sbrk
import Msp432Newlib.Heap.BreakArithmetic
import Msp432Newlib.Heap.Reserve
import Msp432Newlib.Heap.Interference
import Msp432Newlib.Console.Stream
import Msp432Newlib.Console.Read
import Msp432Newlib.Console.Write
import Msp432Newlib.Console.LineDiscipline
import Msp432Newlib.Syscalls.Fixme
import Msp432Newlib.Uart.Peripheral
import Msp432Newlib.Uart.Driver
import Msp432Newlib.Uart.Discipline
import Msp432Newlib.Uart.Transmit
import Msp432Newlib.Uart.Receive
import Msp432Newlib.Uart.Refinement
import Msp432Newlib.Uart.FailingCalls
import Msp432Newlib.Uart.WriteContract
import Msp432Newlib.Uart.Echo
import Msp432Newlib.Startup.CommandLine
import Msp432Newlib.Startup.Arguments
import Msp432Newlib.Startup.ArgumentPassing
import Msp432Newlib.Startup.Start
import Msp432Newlib.Startup.Reset
import Msp432Newlib.Clock.Chip
import Msp432Newlib.Clock.SystemInit
import Msp432Newlib.Clock.Limits
import Msp432Newlib.Clock.InitRuns
import Msp432Newlib.Clock.CoreClock
import Msp432Newlib.Clock.Observed
import Msp432Newlib.Clock.PowerModes
import Msp432Newlib.Clock.CrystalClock
