import LcdKeypad.Gpio

/-!
# The keypad driver (`keypad_lib.c`)

`KBD_DATA`, `KBD_TEMP` and the phase of the two-phase sampler.  A service call gives the new state and the masks
its release clauses latch into `KBD_DATA`, in program order.  `TEMP_KBD_DATA` is never read or written.
-/

namespace LcdKeypad

/-- The four keys, KEY1 to KEY4. -/
inductive Key
  | enter | down | up | escape
  deriving DecidableEq, Repr

/-- The bit of the key in `KBD_DATA`, `KBD_TEMP` and the port value. -/
def Key.mask : Key → UInt8
  | enter => 0x01
  | down => 0x02
  | up => 0x04
  | escape => 0x08

def Key.pin : Key → Pin
  | enter => ⟨.gpio3, 30⟩
  | down => ⟨.gpio3, 17⟩
  | up => ⟨.gpio3, 1⟩
  | escape => ⟨.gpio3, 22⟩

structure Keypad where
  kbdData : UInt8
  kbdTemp : UInt8
  kbdSm : UInt8
  deriving DecidableEq, Repr

/-- The static initialisers. -/
def Keypad.boot : Keypad := ⟨0, 0, 0⟩

def readKBDPort (gpioPinRead : PinReads) : UInt8 :=
  let x1 : UInt8 := 0
  let x1 := if gpioPinRead ⟨.gpio3, 22⟩ ≠ 0 then x1 ||| 0x08 else x1
  let x1 := if gpioPinRead ⟨.gpio3, 1⟩ ≠ 0 then x1 ||| 0x04 else x1
  let x1 := if gpioPinRead ⟨.gpio3, 17⟩ ≠ 0 then x1 ||| 0x02 else x1
  let x1 := if gpioPinRead ⟨.gpio3, 30⟩ ≠ 0 then x1 ||| 0x01 else x1
  x1

/-- `if ((KBD_TEMP & mask) && ((x1 & mask) == 0)) { KBD_DATA |= mask; KBD_TEMP &= keep; }` -/
def releaseClause (mask keep x1 : UInt8) (s : Keypad × List UInt8) : Keypad × List UInt8 :=
  if s.1.kbdTemp &&& mask ≠ 0 ∧ x1 &&& mask = 0 then
    ({ s.1 with kbdData := s.1.kbdData ||| mask, kbdTemp := s.1.kbdTemp &&& keep }, s.2 ++ [mask])
  else s

def serviceKBD4X1 (gpioPinRead : PinReads) (s : Keypad) : Keypad × List UInt8 :=
  if s.kbdSm = 0 then
    ({ s with kbdTemp := s.kbdTemp ||| readKBDPort gpioPinRead, kbdSm := s.kbdSm + 1 }, [])
  else if s.kbdSm = 1 then
    let x1 := readKBDPort gpioPinRead
    let r : Keypad × List UInt8 :=
      if s.kbdTemp &&& 0x0F ≠ 0 then
        releaseClause 0x01 0xFE x1 (releaseClause 0x02 0xFD x1
          (releaseClause 0x04 0xFB x1 (releaseClause 0x08 0xF7 x1 (s, []))))
      else (s, [])
    ({ r.1 with kbdSm := 0 }, r.2)
  else (s, [])

end LcdKeypad
