import Mathlib.Data.Nat.Notation

/-!
# The port and the configuration

What `heap_5.c`, `list.c` and `tasks.c` use of `FreeRTOSConfig_Gen.h` and `portmacrocommon.h`: one core with 32-bit
words and ticks, preemption without time slices, a tick hook, and the task selection by a bit map of the ready
priorities.
-/

namespace LcdKeypad

/-- Where a call stops without a result. -/
inductive KernelStop
  /-- `configASSERT` disables the interrupts and loops for ever. -/
  | configAssert
  /-- A loop is not through when the fuel is used up. -/
  | fuel
  /-- A pointer is followed that leads to no list, or to no owner. -/
  | wildPointer
  deriving DecidableEq, Repr

def configASSERT (c : Prop) [Decidable c] : Except KernelStop Unit := if c then .ok () else .error .configAssert

theorem configASSERT_of_not {c : Prop} [Decidable c] (h : ¬ c) : configASSERT c = .error .configAssert := if_neg h

def configMAX_PRIORITIES : UInt32 := 5
def configTOTAL_HEAP_SIZE : UInt32 := 10240
def configINITIAL_TICK_COUNT : UInt32 := 0

def portMAX_DELAY : UInt32 := 0xFFFFFFFF
def portByteAlignment : UInt32 := 8
def portByteAlignmentMask : UInt32 := 0x7

/-! ### The bit map of the ready priorities -/

/-- The instruction `clz`. -/
def ulPortCountLeadingZeros (ulBitmap : UInt32) : UInt32 :=
  if ulBitmap = 0 then 32 else 31 - .ofNat ulBitmap.toNat.log2

def portRECORD_READY_PRIORITY (uxPriority uxReadyPriorities : UInt32) : UInt32 := uxReadyPriorities ||| 1 <<< uxPriority

def portRESET_READY_PRIORITY (uxPriority uxReadyPriorities : UInt32) : UInt32 :=
  uxReadyPriorities &&& ~~~(1 <<< uxPriority)

def portGET_HIGHEST_PRIORITY (uxReadyPriorities : UInt32) : UInt32 := 31 - ulPortCountLeadingZeros uxReadyPriorities

end LcdKeypad
