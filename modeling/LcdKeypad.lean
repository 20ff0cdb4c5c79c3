import LcdKeypad.General.Runs
import LcdKeypad.General.Strobe
import LcdKeypad.General.StoreLoop
import LcdKeypad.General.BitSet
import LcdKeypad.General.Raster
import LcdKeypad.Gpio
import LcdKeypad.Lcd
import LcdKeypad.Hd44780
import LcdKeypad.Keypad
import LcdKeypad.Legacy
import LcdKeypad.Application
import LcdKeypad.LcdBus
import LcdKeypad.LcdPrint
import LcdKeypad.Refresh
import LcdKeypad.Bench
import LcdKeypad.BlinkMask
import LcdKeypad.Panel
import LcdKeypad.RefreshBounds
import LcdKeypad.LegacyEquiv
import LcdKeypad.General.ReleaseDetector
import LcdKeypad.KeypadEvents
import LcdKeypad.TickEvents
import LcdKeypad.KeyReports
import LcdKeypad.TaskInterrupt
import LcdKeypad.General.Extents
import LcdKeypad.General.ByteMemory
import LcdKeypad.Heap5
import LcdKeypad.FreeList
import LcdKeypad.HeapCalls
import LcdKeypad.HeapRegions
import LcdKeypad.HeapRuns
import LcdKeypad.HeapGuarantees
import LcdKeypad.HeapStats
import LcdKeypad.Port
import LcdKeypad.General.LinkedRing
import LcdKeypad.General.TimedSchedule
import LcdKeypad.KernelList
import LcdKeypad.ListTurns
import LcdKeypad.Tasks
import LcdKeypad.TaskStates
import LcdKeypad.TaskMoves
import LcdKeypad.TaskTicks
import LcdKeypad.TaskResume
import LcdKeypad.TaskBlock
import LcdKeypad.EventLists
import LcdKeypad.KernelStart
import LcdKeypad.KernelInvariant
import LcdKeypad.KernelSteps
import LcdKeypad.KernelGuarantees
import LcdKeypad.TaskWaits
