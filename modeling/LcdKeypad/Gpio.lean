import Mathlib.Logic.Function.Basic

/-!
# GPIO pins

The pins of the five GPIO ports of the MCXA266 and the two SDK calls the drivers use: `GPIO_PinWrite`, which sets
the output level of one pin, and `GPIO_PinRead`, whose results are an input of the model (`PinReads`).
-/

namespace LcdKeypad

inductive GpioPort
  | gpio0 | gpio1 | gpio2 | gpio3 | gpio4
  deriving DecidableEq, Repr

structure Pin where
  port : GpioPort
  number : UInt32
  deriving DecidableEq, Repr

/-- One call of `GPIO_PinWrite`: the pin and the level it is set to. -/
structure PinWrite where
  pin : Pin
  level : Bool
  deriving DecidableEq, Repr

abbrev PinLevels := Pin → Bool

/-- What `GPIO_PinRead` returns for each pin. -/
abbrev PinReads := Pin → UInt32

/-- `GPIO_PinWrite(base, pin, output)`: output 0 is the low level, any other value the high one. -/
def gpioPinWrite (base : GpioPort) (pin : UInt32) (output : UInt8) : PinWrite := ⟨⟨base, pin⟩, output != 0⟩

def PinLevels.write (l : PinLevels) (w : PinWrite) : PinLevels := Function.update l w.pin w.level

@[simp] theorem PinLevels.write_self (l : PinLevels) (w : PinWrite) : l.write w w.pin = w.level :=
  Function.update_self ..

theorem PinLevels.write_of_ne (l : PinLevels) {w : PinWrite} {p : Pin} (h : p ≠ w.pin) : l.write w p = l p :=
  Function.update_of_ne h ..

end LcdKeypad
