/-!
# The legacy driver (`examples/LCD_KBD.c`)

`WriteLCD` of the driver that `lcd.c` was ported from, with its statics and the port registers it writes.  Its
locals `z1` and `i` are never used.
-/

namespace LcdKeypad

/-- A write to a port register: `LATB`, the RS line or the enable line. -/
inductive PortWrite
  | lcdData (data : UInt8)
  | lcdRs (level : Bool)
  | lcdEn1 (level : Bool)
  deriving DecidableEq, Repr

/-- The globals and the statics of `WriteLCD`. -/
structure LegacyLcd where
  displayBuffer : Vector UInt8 32
  blinkFlags : UInt32
  lcdSm : UInt8
  blinkcounter : UInt16
  lcdStatus : UInt8
  x1 : UInt8
  y1 : UInt8

/-- The static initialisers, with the given text and no position blinking. -/
def LegacyLcd.boot (displayBuffer : Vector UInt8 32) : LegacyLcd := ⟨displayBuffer, 0, 0, 0, 0, 0, 0⟩

def line1 : UInt8 := 0x80
def line2 : UInt8 := 0xC0

/-- The result is the local `rt`, as the missing return statement was meant. -/
def getBlinkLocation (loc : UInt8) (s : LegacyLcd) : UInt8 :=
  if s.blinkFlags &&& (1 <<< loc.toUInt32) ≠ 0 then 1 else 0

def writeLCDPort (data : UInt8) : PortWrite := .lcdData data

/-- The three steps of a command byte, cases 0 and 17 of `lcd_sm`. -/
def writeLCDCommand (line : UInt8) (s : LegacyLcd) : LegacyLcd × List PortWrite :=
  if s.lcdStatus = 0 then
    ({ s with lcdStatus := s.lcdStatus + 1 }, [writeLCDPort line, .lcdRs false])
  else if s.lcdStatus = 1 then
    ({ s with lcdStatus := s.lcdStatus + 1 }, [.lcdEn1 true])
  else if s.lcdStatus = 2 then
    ({ s with lcdStatus := 0, lcdSm := s.lcdSm + 1 }, [.lcdEn1 false, .lcdRs true])
  else (s, [])

def writeLCD (s : LegacyLcd) : LegacyLcd × List PortWrite :=
  let s := { s with blinkcounter := s.blinkcounter + 1 }
  if s.lcdSm = 0 then writeLCDCommand line1 s
  else if s.lcdSm = 17 then writeLCDCommand line2 s
  else if s.lcdStatus = 0 then
    let y1 := if 16 < s.lcdSm then s.lcdSm - 2 else s.lcdSm - 1
    let x1 := s.displayBuffer.toArray.getD y1.toNat 0
    let x1 := if getBlinkLocation y1 s ≠ 0 ∧ s.blinkcounter &&& 0x200 ≠ 0 then 0x20 else x1
    ({ s with lcdStatus := s.lcdStatus + 1, x1 := x1, y1 := y1 }, [writeLCDPort x1, .lcdRs true])
  else if s.lcdStatus = 1 then
    ({ s with lcdStatus := s.lcdStatus + 1 }, [.lcdEn1 true])
  else if s.lcdStatus = 2 then
    let lcdSm := s.lcdSm + 1
    ({ s with lcdStatus := 0, lcdSm := if 33 < lcdSm then 0 else lcdSm }, [.lcdEn1 false])
  else (s, [])

end LcdKeypad
