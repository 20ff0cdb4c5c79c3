import LcdKeypad.Hd44780
import LcdKeypad.LcdBus

/-!
# The driver in front of the panel

The driver, the pins it drives and the panel that latches them, under the calls of the API and of the service
routine.  The task's calls are sequences of atomic events, single stores into the shadow buffer among them, and
service calls may run between two stores (`ApiCall.events`).
-/

namespace LcdKeypad

/-- A call of the service routine: the driver's variables when it ran and the panel cells it stored into. -/
structure ServiceCall where
  lcd : Lcd
  stores : List (Nat × UInt8)

/-- The driver, the pin levels, the panel and the service calls since the last `LCD_Init`, the newest first. -/
structure Bench where
  lcd : Lcd
  pins : PinLevels
  panel : Hd44780
  calls : List ServiceCall

def Bench.drive (b : Bench) (ws : List PinWrite) : Bench :=
  { b with pins := lcdBus.after b.pins ws, panel := (lcdBus.latched b.pins ws).foldl Hd44780.exec b.panel }

inductive LcdEvent
  | init
  | service
  | store (c : CellStore)
  | setBlink (position : UInt8)
  | clearBlink (position : UInt8)
  | clearAllBlink

def Bench.init (b : Bench) : Bench :=
  { { b with lcd := lcdInit b.lcd }.drive lcdInitTrace with calls := [] }

def Bench.service (b : Bench) : Bench :=
  let ws := lcdTrace (lcdService1kHz b.lcd).2
  { { b with lcd := (lcdService1kHz b.lcd).1 }.drive ws with
    calls := ⟨b.lcd, b.panel.stores (lcdBus.latched b.pins ws)⟩ :: b.calls }

/-- With E low the panel latches exactly the transfers of the service call. -/
theorem Bench.service_of_low {b : Bench} (h : b.pins pinE = false) :
    b.service.pins pinE = false ∧ b.service.lcd = (lcdService1kHz b.lcd).1 ∧
      b.service.panel = (lcdService1kHz b.lcd).2.foldl Hd44780.exec b.panel ∧
      b.service.calls = ⟨b.lcd, b.panel.stores (lcdService1kHz b.lcd).2⟩ :: b.calls := by
  obtain ⟨hlatched, hlow, -⟩ := latched_lcdTrace (lcdService1kHz b.lcd).2 h
  simp only [service, drive, hlatched, hlow, and_self]

def Bench.step (b : Bench) : LcdEvent → Bench
  | .init => b.init
  | .service => b.service
  | .store c => { b with lcd := b.lcd.store c }
  | .setBlink position => { b with lcd := lcdSetBlink position b.lcd }
  | .clearBlink position => { b with lcd := lcdClearBlink position b.lcd }
  | .clearAllBlink => { b with lcd := lcdClearAllBlink b.lcd }

def Bench.run (b : Bench) (es : List LcdEvent) : Bench := es.foldl Bench.step b

/-- A call of the API.  `between i` is the number of service calls that run after the `i`-th store of the call. -/
inductive ApiCall
  | init
  | service
  | setChar (character position : UInt8)
  | print (text : Option (List UInt8)) (length position : UInt8) (between : Nat → Nat)
  | printStr (text : Option CString) (position : UInt8) (between : Nat → Nat)
  | clear (between : Nat → Nat)
  | setBlink (position : UInt8)
  | clearBlink (position : UInt8)
  | clearAllBlink

/-- Stores with service calls in between. -/
def interleaved (between : Nat → Nat) (cs : List CellStore) : List LcdEvent :=
  cs.zipIdx.flatMap fun c => .store c.1 :: List.replicate (between c.2) .service

def ApiCall.events : ApiCall → List LcdEvent
  | .init => [.init]
  | .service => [.service]
  | .setChar character position => interleaved (fun _ => 0) (lcdSetCharStores character position)
  | .print text length position between => interleaved between (lcdPrintStores text length position)
  | .printStr text position between => interleaved between (lcdPrintStrStores text position)
  | .clear between => interleaved between lcdClearStores
  | .setBlink position => [.setBlink position]
  | .clearBlink position => [.clearBlink position]
  | .clearAllBlink => [.clearAllBlink]

/-- The API function of a call; those of `init` and `service` also drive the pins. -/
def ApiCall.lcd : ApiCall → Lcd → Lcd
  | .init, s => lcdInit s
  | .service, s => (lcdService1kHz s).1
  | .setChar character position, s => lcdSetChar character position s
  | .print text length position _, s => lcdPrint text length position s
  | .printStr text position _, s => lcdPrintStr text position s
  | .clear _, s => lcdClear s
  | .setBlink position, s => lcdSetBlink position s
  | .clearBlink position, s => lcdClearBlink position s
  | .clearAllBlink, s => lcdClearAllBlink s

def ApiCall.Undisturbed : ApiCall → Prop
  | .print _ _ _ between => ∀ i, between i = 0
  | .printStr _ _ between => ∀ i, between i = 0
  | .clear between => ∀ i, between i = 0
  | _ => True

private theorem interleaved_zero {between : Nat → Nat} (h : ∀ i, between i = 0) (cs : List CellStore) :
    interleaved between cs = cs.map .store := by
  have hfst : cs.map LcdEvent.store = cs.zipIdx.map (LcdEvent.store ∘ Prod.fst) := by
    rw [← List.map_map, List.zipIdx_map_fst]
  simp only [interleaved, h, List.replicate_zero, hfst, ← List.map_eq_flatMap]
  rfl

private theorem run_stores (cs : List CellStore) (b : Bench) :
    b.run (cs.map .store) = { b with lcd := cs.foldl Lcd.store b.lcd } := by
  induction cs generalizing b with
  | nil => rfl
  | cons c cs ih => exact ih { b with lcd := b.lcd.store c }

/-- A call that no service call interrupts does to the driver's variables what the API function does. -/
theorem run_events_of_undisturbed {call : ApiCall} (h : call.Undisturbed) (b : Bench) :
    (b.run call.events).lcd = call.lcd b.lcd := by
  cases call with
  | init => rfl
  | service => rfl
  | setChar character position => rw [ApiCall.events, interleaved_zero fun _ => rfl, run_stores]; rfl
  | print text length position between => rw [ApiCall.events, interleaved_zero h, run_stores]; rfl
  | printStr text position between => rw [ApiCall.events, interleaved_zero h, run_stores]; rfl
  | clear between => rw [ApiCall.events, interleaved_zero h, run_stores]; rfl
  | setBlink position => rfl
  | clearBlink position => rfl
  | clearAllBlink => rfl

end LcdKeypad
