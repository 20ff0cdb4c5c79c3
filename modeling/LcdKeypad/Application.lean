import Mathlib.Data.List.TakeWhile
import LcdKeypad.Lcd
import LcdKeypad.Keypad

/-!
# The application (`MCXA266.c`)

The 1 kHz tick hook, the loop body of the application task and the start-up of `main`.  The task's body is given
twice: as one atomic step (`applicationTask`) and as a small-step program with one step per access to `KBD_DATA`
(`taskStep`), between whose steps a tick interrupt can be placed.
-/

namespace LcdKeypad

/-- The branches of the task's `if`/`else if` chain. -/
inductive KeyReport
  | enter | menu | down | up | escape
  deriving DecidableEq, Repr

/-- `KEY_ENTER`, `KEY_MU`, `KEY_DN`, `KEY_UP` and `KEY_ESC` -/
def KeyReport.mask : KeyReport → UInt8
  | enter => 0x01
  | menu => 0x01
  | down => 0x02
  | up => 0x04
  | escape => 0x08

/-- What a piece of the application does, in program order. -/
inductive Action
  | send (t : Transfer)
  /-- `KBD_DATA |= mask` in a release clause. -/
  | latch (mask : UInt8)
  /-- The test `if (KBD_DATA)` of the task. -/
  | read
  /-- `LCD_PrintStr` and `PRINTF` of a branch of the task. -/
  | report (key : KeyReport)
  /-- `KBD_DATA = 0` -/
  | clear
  deriving DecidableEq, Repr

structure Board where
  uptimeMilliseconds : UInt32
  keypadTickCounter : UInt32
  lcd : Lcd
  keypad : Keypad

/-! ### The tick hook -/

def vApplicationTickHook (gpioPinRead : PinReads) (b : Board) : Board × List Action :=
  let (lcd, sent) := lcdService1kHz b.lcd
  let b : Board := { b with
    uptimeMilliseconds := b.uptimeMilliseconds + 1
    lcd := lcd
    keypadTickCounter := b.keypadTickCounter + 1 }
  if 50 ≤ b.keypadTickCounter then
    let (keypad, latched) := serviceKBD4X1 gpioPinRead b.keypad
    ({ b with keypadTickCounter := 0, keypad := keypad }, sent.map .send ++ latched.map .latch)
  else (b, sent.map .send)

/-! ### The texts -/

/-- The C string of a literal: its characters up to the first NUL. -/
def CString.ofString (s : String) : CString where
  chars := (s.toList.map fun c => UInt8.ofNat c.toNat).takeWhile (· != 0)
  ne_nul := fun c hc => by simpa using List.mem_takeWhile_imp hc

def KeyReport.lcdText : KeyReport → String
  | enter => "Key: ENTER     "
  | menu => "Key: MENU      "
  | down => "Key: DOWN      "
  | up => "Key: UP        "
  | escape => "Key: ESCAPE    "

def lcdRow0Start : UInt8 := 0
def lcdRow1Start : UInt8 := lcdColumns
def lcdLastColRow0 : UInt8 := lcdColumns - 1
def lcdLastColRow1 : UInt8 := lcdTotalChars - 1

/-! ### The application task -/

/-- The body of a branch: the text goes to row 1 of the shadow buffer and to the console. -/
def Board.report (key : KeyReport) (b : Board) : Board × List Action :=
  ({ b with lcd := lcdPrintStr (some (.ofString key.lcdText)) lcdRow1Start b.lcd }, [.report key])

def Board.clear (b : Board) : Board := { b with keypad := { b.keypad with kbdData := 0 } }

/-- One iteration of the task's loop after `vTaskDelay`, with nothing in between. -/
def applicationTask (b : Board) : Board × List Action :=
  if b.keypad.kbdData ≠ 0 then
    let (b, reported) :=
      if b.keypad.kbdData &&& KeyReport.enter.mask ≠ 0 then b.report .enter
      else if b.keypad.kbdData &&& KeyReport.menu.mask ≠ 0 then b.report .menu
      else if b.keypad.kbdData &&& KeyReport.down.mask ≠ 0 then b.report .down
      else if b.keypad.kbdData &&& KeyReport.up.mask ≠ 0 then b.report .up
      else if b.keypad.kbdData &&& KeyReport.escape.mask ≠ 0 then b.report .escape
      else (b, [])
    (b.clear, .read :: (reported ++ [.clear]))
  else (b, [.read])

/-- Where the task is in its loop body: the next access to `KBD_DATA` or the next report. -/
inductive TaskPc
  /-- `if (KBD_DATA)`, after `vTaskDelay` -/
  | testData
  | test (key : KeyReport)
  | report (key : KeyReport)
  /-- `KBD_DATA = 0` -/
  | clear
  deriving DecidableEq, Repr

def KeyReport.elseBranch : KeyReport → TaskPc
  | enter => .test .menu
  | menu => .test .down
  | down => .test .up
  | up => .test .escape
  | escape => .clear

/-- The board with the task suspended at `pc`. -/
structure Cpu where
  board : Board
  pc : TaskPc

def taskStep (s : Cpu) : Cpu × List Action :=
  match s.pc with
  | .testData => ({ s with pc := if s.board.keypad.kbdData ≠ 0 then .test .enter else .testData }, [.read])
  | .test key =>
    ({ s with pc := if s.board.keypad.kbdData &&& key.mask ≠ 0 then .report key else key.elseBranch }, [])
  | .report key => ({ board := (s.board.report key).1, pc := .clear }, (s.board.report key).2)
  | .clear => ({ board := s.board.clear, pc := .testData }, [.clear])

/-- A step of the task, or a run of the tick hook that interrupts it. -/
inductive CpuEvent
  | task
  | tick (gpioPinRead : PinReads)

def cpuStep (s : Cpu) : CpuEvent → Cpu × List Action
  | .task => taskStep s
  | .tick gpioPinRead =>
    ({ s with board := (vApplicationTickHook gpioPinRead s.board).1 },
      (vApplicationTickHook gpioPinRead s.board).2)

/-! ### Start-up -/

/-- What `main` does to the driver's variables before it starts the scheduler. -/
def mainLcd (s : Lcd) : Lcd :=
  let s := lcdInit s
  let s := lcdClear s
  let s := lcdPrintStr (some (.ofString "MCXA266")) lcdRow0Start s
  let s := lcdPrintStr (some (.ofString "READY")) 8 s
  let s := lcdPrintStr (some (.ofString "BARE METAL MODE")) lcdRow1Start s
  let s := lcdPrintStr (some (.ofString "HELLO world")) lcdRow0Start s
  let s := lcdSetChar 0x2A lcdLastColRow0 s
  let s := lcdSetChar 0x2A lcdLastColRow1 s
  let s := lcdSetBlink lcdLastColRow0 s
  let s := lcdSetBlink lcdLastColRow1 s
  lcdSetBlink 30 s

def Board.boot : Board := ⟨0, 0, mainLcd .boot, .boot⟩

end LcdKeypad
