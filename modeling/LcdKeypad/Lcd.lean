import LcdKeypad.Gpio

/-!
# The LCD driver (`lcd.c`)

The static variables of the driver and its functions.  The bus functions give the pin writes they make, in
program order; the buffer functions give the stores into the shadow buffer they make, in program order, so that
an interrupt can be placed between two of them; `lcdService1kHz` gives the new state and the calls of
`lcd_send_byte` it makes.
-/

namespace LcdKeypad

/-! ### Constants -/

def lcdColumns : UInt8 := 16
def lcdTotalChars : UInt8 := 32

def hd44780SetRow0Address : UInt8 := 0x80
def hd44780SetRow1Address : UInt8 := 0xC0
def hd44780CmdFunctionSet : UInt8 := 0x38
def hd44780CmdDisplayOff : UInt8 := 0x08
def hd44780CmdClearDisplay : UInt8 := 0x01
def hd44780CmdEntryMode : UInt8 := 0x06
def hd44780CmdDisplayOn : UInt8 := 0x0C
def hd44780CmdResetBus : UInt8 := 0x30

def phaseSetRow0Address : UInt8 := 0
def phaseWriteRow0Data : UInt8 := 1
def phaseSetRow1Address : UInt8 := 2
def phaseWriteRow1Data : UInt8 := 3

def rsCommand : UInt8 := 0
def rsData : UInt8 := 1

/-- `(uint8_t)' '` -/
def space : UInt8 := 0x20

/-! ### The bus -/

def lcdPinRS (value : UInt8) : PinWrite := gpioPinWrite .gpio4 7 value
def lcdPinE (value : UInt8) : PinWrite := gpioPinWrite .gpio4 6 value
def lcdPinD0 (value : UInt8) : PinWrite := gpioPinWrite .gpio2 1 value
def lcdPinD1 (value : UInt8) : PinWrite := gpioPinWrite .gpio2 20 value
def lcdPinD2 (value : UInt8) : PinWrite := gpioPinWrite .gpio2 21 value
def lcdPinD3 (value : UInt8) : PinWrite := gpioPinWrite .gpio4 3 value
def lcdPinD4 (value : UInt8) : PinWrite := gpioPinWrite .gpio3 12 value
def lcdPinD5 (value : UInt8) : PinWrite := gpioPinWrite .gpio3 13 value
def lcdPinD6 (value : UInt8) : PinWrite := gpioPinWrite .gpio3 15 value
def lcdPinD7 (value : UInt8) : PinWrite := gpioPinWrite .gpio3 16 value

def lcdWriteDataPins (byte : UInt8) : List PinWrite :=
  [lcdPinD0 (byte &&& 1), lcdPinD1 ((byte >>> 1) &&& 1), lcdPinD2 ((byte >>> 2) &&& 1),
    lcdPinD3 ((byte >>> 3) &&& 1), lcdPinD4 ((byte >>> 4) &&& 1), lcdPinD5 ((byte >>> 5) &&& 1),
    lcdPinD6 ((byte >>> 6) &&& 1), lcdPinD7 ((byte >>> 7) &&& 1)]

/-- The barriers between the data and the enable pulse order the writes, as the list does. -/
def lcdSendByte (byte registerSel : UInt8) : List PinWrite :=
  lcdPinRS registerSel :: (lcdWriteDataPins byte ++ [lcdPinE 1, lcdPinE 0])

/-- A call of `lcd_send_byte` with `RS_DATA` (`rs` high) or `RS_COMMAND` (`rs` low). -/
structure Transfer where
  rs : Bool
  byte : UInt8
  deriving DecidableEq, Repr

def Transfer.command (byte : UInt8) : Transfer := ⟨false, byte⟩
def Transfer.data (byte : UInt8) : Transfer := ⟨true, byte⟩

def Transfer.send (t : Transfer) : List PinWrite := lcdSendByte t.byte (if t.rs then rsData else rsCommand)

/-! ### The shadow buffer -/

/-- The static variables of `lcd.c`. -/
structure Lcd where
  displayBuffer : Vector UInt8 32
  blinkMask : UInt32
  refreshPhase : UInt8
  currentCharIndex : UInt8
  millisecondCounter : UInt16
  deriving DecidableEq, Repr

/-- The variables before `main`: statics without an initialiser are zero. -/
def Lcd.boot : Lcd := ⟨Vector.replicate 32 0, 0, 0, 0, 0⟩

/-- One store `display_buffer[cell] = byte`. -/
structure CellStore where
  cell : UInt8
  byte : UInt8
  deriving DecidableEq, Repr

-- A store past the buffer is undefined in C; every caller keeps `cell` below `LCD_TOTAL_CHARS`.
def Lcd.store (s : Lcd) (c : CellStore) : Lcd :=
  { s with displayBuffer := s.displayBuffer.setIfInBounds c.cell.toNat c.byte }

/-- The values of `i` in `for (uint8_t i = first; i < limit; i++)`. -/
def loopIndices (first limit : UInt8) : List UInt8 :=
  (List.range' first.toNat (limit.toNat - first.toNat)).map UInt8.ofNat

/-- The loop of `LCD_Clear`, which `LCD_Init` repeats. -/
def lcdClearStores : List CellStore := (loopIndices 0 lcdTotalChars).map fun i => ⟨i, space⟩

def lcdClear (s : Lcd) : Lcd := lcdClearStores.foldl Lcd.store s

def lcdSetCharStores (character position : UInt8) : List CellStore :=
  if position < lcdTotalChars then [⟨position, character⟩] else []

def lcdSetChar (character position : UInt8) (s : Lcd) : Lcd :=
  (lcdSetCharStores character position).foldl Lcd.store s

/-- The stores of `LCD_Print`; `none` is the null pointer, `some text` the bytes that can be read there. -/
def lcdPrintStores (text : Option (List UInt8)) (length position : UInt8) : List CellStore :=
  match text with
  | none => []
  | some text =>
    if lcdTotalChars ≤ position then [] else
      let endPosition := position + length  -- narrowed to `uint8_t`
      let endPosition := if lcdTotalChars < endPosition then lcdTotalChars else endPosition
      (loopIndices position endPosition).map fun i => ⟨i, text.getD (i.toNat - position.toNat) 0⟩

def lcdPrint (text : Option (List UInt8)) (length position : UInt8) (s : Lcd) : Lcd :=
  (lcdPrintStores text length position).foldl Lcd.store s

/-- A C string: its characters, none of them NUL. -/
structure CString where
  chars : List UInt8
  ne_nul : ∀ c ∈ chars, c ≠ 0

def CString.bytes (s : CString) : List UInt8 := s.chars ++ [0]

def strlen : List UInt8 → Nat
  | [] => 0
  | c :: cs => if c = 0 then 0 else strlen cs + 1

def lcdPrintStrStores (text : Option CString) (position : UInt8) : List CellStore :=
  match text with
  | none => []
  | some text => lcdPrintStores (some text.bytes) (UInt8.ofNat (strlen text.bytes)) position

def lcdPrintStr (text : Option CString) (position : UInt8) (s : Lcd) : Lcd :=
  (lcdPrintStrStores text position).foldl Lcd.store s

/-! ### Blinking -/

def lcdSetBlink (position : UInt8) (s : Lcd) : Lcd :=
  if position < lcdTotalChars then { s with blinkMask := s.blinkMask ||| (1 <<< position.toUInt32) } else s

def lcdClearBlink (position : UInt8) (s : Lcd) : Lcd :=
  if position < lcdTotalChars then { s with blinkMask := s.blinkMask &&& ~~~(1 <<< position.toUInt32) } else s

def lcdGetBlink (position : UInt8) (s : Lcd) : UInt8 :=
  if lcdTotalChars ≤ position then 0 else ((s.blinkMask >>> position.toUInt32) &&& 1).toUInt8

def lcdClearAllBlink (s : Lcd) : Lcd := { s with blinkMask := 0 }

/-! ### Initialisation -/

def lcdInit (s : Lcd) : Lcd :=
  { lcdClearStores.foldl Lcd.store s with
    blinkMask := 0
    refreshPhase := phaseSetRow0Address
    currentCharIndex := 0
    millisecondCounter := 0 }

/-- The pin writes of `LCD_Init`: the three reset pulses, then five commands. -/
def lcdInitTrace : List PinWrite :=
  [lcdPinRS 0, lcdPinE 0] ++ lcdWriteDataPins hd44780CmdResetBus ++
    (List.replicate 3 [lcdPinE 1, lcdPinE 0]).flatten ++
    lcdSendByte hd44780CmdFunctionSet rsCommand ++ lcdSendByte hd44780CmdDisplayOff rsCommand ++
    lcdSendByte hd44780CmdClearDisplay rsCommand ++ lcdSendByte hd44780CmdEntryMode rsCommand ++
    lcdSendByte hd44780CmdDisplayOn rsCommand

/-! ### The 1 kHz service routine -/

/-- `LCD_GetBlink(i) && is_blink_blank_phase ? ' ' : display_buffer[i]`, which both data phases send. -/
def serviceCharacter (s : Lcd) (isBlinkBlankPhase : UInt8) : UInt8 :=
  -- A read past the buffer is undefined in C; the phases keep the index below `LCD_TOTAL_CHARS`.
  let character := s.displayBuffer.toArray.getD s.currentCharIndex.toNat 0
  if lcdGetBlink s.currentCharIndex s ≠ 0 ∧ isBlinkBlankPhase ≠ 0 then space else character

def lcdService1kHz (s : Lcd) : Lcd × List Transfer :=
  let s := { s with millisecondCounter := s.millisecondCounter + 1 }
  let isBlinkBlankPhase : UInt8 := if s.millisecondCounter &&& 0x100 ≠ 0 then 1 else 0
  if s.refreshPhase = phaseSetRow0Address then
    ({ s with currentCharIndex := 0, refreshPhase := phaseWriteRow0Data },
      [Transfer.command hd44780SetRow0Address])
  else if s.refreshPhase = phaseWriteRow0Data then
    let character := serviceCharacter s isBlinkBlankPhase
    let s := { s with currentCharIndex := s.currentCharIndex + 1 }
    (if lcdColumns ≤ s.currentCharIndex then { s with refreshPhase := phaseSetRow1Address } else s,
      [Transfer.data character])
  else if s.refreshPhase = phaseSetRow1Address then
    ({ s with currentCharIndex := lcdColumns, refreshPhase := phaseWriteRow1Data },
      [Transfer.command hd44780SetRow1Address])
  else if s.refreshPhase = phaseWriteRow1Data then
    let character := serviceCharacter s isBlinkBlankPhase
    let s := { s with currentCharIndex := s.currentCharIndex + 1 }
    (if lcdTotalChars ≤ s.currentCharIndex then { s with refreshPhase := phaseSetRow0Address } else s,
      [Transfer.data character])
  else ({ s with refreshPhase := phaseSetRow0Address }, [])

end LcdKeypad
