import LcdKeypad.Lcd

/-!
# The panel

The HD44780 as far as the driver uses it.  The controller is not part of the repository, so this module is an
assumption about the hardware: a transfer with RS low and bit 7 set moves the address counter, the clear command
fills the display memory with spaces and homes the counter, other commands leave both alone, and a transfer with
RS high stores at the counter and increments it.
-/

namespace LcdKeypad

structure Hd44780 where
  ddram : Nat → UInt8
  addressCounter : Nat

def Hd44780.exec (p : Hd44780) (t : Transfer) : Hd44780 :=
  if t.rs then ⟨Function.update p.ddram p.addressCounter t.byte, p.addressCounter + 1⟩
  else if t.byte &&& 0x80 ≠ 0 then { p with addressCounter := (t.byte &&& 0x7F).toNat }
  else if t.byte = hd44780CmdClearDisplay then ⟨fun _ => space, 0⟩
  else p

/-- The cells a sequence of transfers stores into by data transfers, with the bytes stored. -/
def Hd44780.stores : Hd44780 → List Transfer → List (Nat × UInt8)
  | _, [] => []
  | p, t :: ts =>
    if t.rs then (p.addressCounter, t.byte) :: stores (p.exec t) ts else stores (p.exec t) ts

/-- The display memory address of the linear position `p`: row 0 from `0x00`, row 1 from `0x40`. -/
def ddramAddress (p : Nat) : Nat := if p < 16 then p else 0x40 + (p - 16)

end LcdKeypad
