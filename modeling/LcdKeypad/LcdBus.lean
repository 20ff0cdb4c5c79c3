import LcdKeypad.General.Runs
import LcdKeypad.General.Strobe
import LcdKeypad.Lcd

/-!
# The LCD bus

The ten LCD pins as a strobed bus: RS and D0 to D7 are latched at the falling edges of E.  A call of
`lcd_send_byte` is a frame that carries its two arguments, so whatever list of transfers is sent is read back from
the pins, and the trace of `LCD_Init` followed by any number of service calls is read back as its three reset
commands, its five commands and the transfers of the service calls.
-/

namespace LcdKeypad

open Strobe

def pinRS : Pin := ⟨.gpio4, 7⟩
def pinE : Pin := ⟨.gpio4, 6⟩

def dataPins : List Pin :=
  [⟨.gpio2, 1⟩, ⟨.gpio2, 20⟩, ⟨.gpio2, 21⟩, ⟨.gpio4, 3⟩, ⟨.gpio3, 12⟩, ⟨.gpio3, 13⟩, ⟨.gpio3, 15⟩, ⟨.gpio3, 16⟩]

def lcdPins : List Pin := pinRS :: pinE :: dataPins

/-- The byte with the given bits, the lowest first. -/
def byteOfBits : List Bool → UInt8
  | [] => 0
  | b :: bs => (if b then (1 : UInt8) else 0) ||| (byteOfBits bs <<< 1)

def busByte (l : PinLevels) : UInt8 := byteOfBits (dataPins.map l)

def lcdBus : Bus PinLevels PinWrite Transfer where
  write := PinLevels.write
  enable l := l pinE
  data l := ⟨l pinRS, busByte l⟩

/-! ### Levels after a trace -/

theorem after_of_notMem {ws : List PinWrite} {p : Pin} (h : p ∉ ws.map PinWrite.pin) (l : PinLevels) :
    lcdBus.after l ws p = l p := by
  induction ws generalizing l with
  | nil => rfl
  | cons w ws ih =>
    rw [List.map_cons, List.mem_cons, not_or] at h
    rw [Bus.after_cons, ih h.2]
    exact PinLevels.write_of_ne l h.1

/-- If no pin is written twice, every written pin ends at the level written to it. -/
theorem after_of_mem {ws : List PinWrite} (hnd : (ws.map PinWrite.pin).Nodup) {w : PinWrite} (hw : w ∈ ws)
    (l : PinLevels) : lcdBus.after l ws w.pin = w.level := by
  induction ws generalizing l with
  | nil => cases hw
  | cons v ws ih =>
    rw [List.map_cons, List.nodup_cons] at hnd
    rw [Bus.after_cons]
    rcases List.mem_cons.1 hw with rfl | hw
    · rw [after_of_notMem hnd.1]
      exact PinLevels.write_self l w
    · exact ih hnd.2 hw _

theorem pins_lcdWriteDataPins (byte : UInt8) : (lcdWriteDataPins byte).map PinWrite.pin = dataPins := rfl

private theorem byteOfBits_lcdWriteDataPins (byte : UInt8) :
    byteOfBits ((lcdWriteDataPins byte).map PinWrite.level) = byte := by
  obtain ⟨n, rfl⟩ : ∃ n : Fin 256, byte = UInt8.ofNat n.val := ⟨⟨byte.toNat, byte.toNat_lt⟩, by simp⟩
  revert n
  decide +kernel

theorem busByte_after_lcdWriteDataPins (byte : UInt8) (l : PinLevels) :
    busByte (lcdBus.after l (lcdWriteDataPins byte)) = byte := by
  have hnd : ((lcdWriteDataPins byte).map PinWrite.pin).Nodup := by
    rw [pins_lcdWriteDataPins]; decide
  have hl : (lcdWriteDataPins byte).map (lcdBus.after l (lcdWriteDataPins byte) ∘ PinWrite.pin) =
      (lcdWriteDataPins byte).map PinWrite.level :=
    List.map_congr_left fun w hw => after_of_mem hnd hw l
  unfold busByte
  rw [← pins_lcdWriteDataPins byte, List.map_map, hl, byteOfBits_lcdWriteDataPins]

/-! ### Frames -/

/-- What is written while E is high: E goes low again. -/
def LowersE (w : PinWrite) : Prop := w = lcdPinE 0

theorem enable_write_of_ne {w : PinWrite} (h : w.pin ≠ pinE) (l : PinLevels) :
    lcdBus.enable (lcdBus.write l w) = lcdBus.enable l :=
  PinLevels.write_of_ne l (Ne.symm h)

theorem lcdPulse : lcdBus.Pulse (lcdPinE 1) (lcdPinE 0) where
  enable_up l := PinLevels.write_self l (lcdPinE 1)
  enable_down l := PinLevels.write_self l (lcdPinE 0)
  data_eq l := by
    have h : ∀ p ∈ pinRS :: dataPins, (l.write (lcdPinE 1)).write (lcdPinE 0) p = l p := by
      intro p hp
      have hne : p ≠ pinE := by rintro rfl; revert hp; decide
      rw [PinLevels.write_of_ne _ (w := lcdPinE 0) hne, PinLevels.write_of_ne _ (w := lcdPinE 1) hne]
    rw [List.forall_mem_cons] at h
    show Transfer.mk _ (byteOfBits _) = Transfer.mk (l pinRS) (byteOfBits _)
    rw [← h.1, ← List.map_congr_left h.2]
    rfl

private theorem setup_quiet (byte registerSel : UInt8) :
    ∀ w ∈ lcdPinRS registerSel :: lcdWriteDataPins byte, ∀ l,
      lcdBus.enable (lcdBus.write l w) = lcdBus.enable l := by
  intro w hw l
  refine enable_write_of_ne (fun h => ?_) l
  have hm := List.mem_map_of_mem (f := PinWrite.pin) hw
  rw [List.map_cons, pins_lcdWriteDataPins, h] at hm
  revert hm
  show ¬ pinE ∈ pinRS :: dataPins
  decide

theorem frame_lcdSendByte (byte registerSel : UInt8) :
    lcdBus.Frame LowersE (lcdSendByte byte registerSel) ⟨registerSel != 0, byte⟩ := by
  show lcdBus.Frame LowersE ((lcdPinRS registerSel :: lcdWriteDataPins byte) ++ [lcdPinE 1, lcdPinE 0]) _
  refine Bus.Frame.of_pulse (setup_quiet byte registerSel) (fun l => ?_) lcdPulse rfl
  rw [Bus.after_cons]
  have hrs : lcdBus.after (lcdBus.write l (lcdPinRS registerSel)) (lcdWriteDataPins byte) pinRS
      = (registerSel != 0) := by
    rw [after_of_notMem (by rw [pins_lcdWriteDataPins]; decide)]
    exact PinLevels.write_self l (lcdPinRS registerSel)
  show Transfer.mk _ (busByte _) = _
  rw [hrs, busByte_after_lcdWriteDataPins]

theorem frame_send (t : Transfer) : lcdBus.Frame LowersE t.send t := by
  obtain ⟨rs, byte⟩ := t
  cases rs
  · exact frame_lcdSendByte byte rsCommand
  · exact frame_lcdSendByte byte rsData

/-! ### Whole traces -/

def lcdTrace (ts : List Transfer) : List PinWrite := ts.flatMap Transfer.send

def lcdInitCommands : List Transfer :=
  [.command hd44780CmdFunctionSet, .command hd44780CmdDisplayOff, .command hd44780CmdClearDisplay,
    .command hd44780CmdEntryMode, .command hd44780CmdDisplayOn]

/-- What the panel latches during `LCD_Init`: the three reset pulses, then the five commands. -/
def lcdInitTransfers : List Transfer := List.replicate 3 (.command hd44780CmdResetBus) ++ lcdInitCommands

def serviceTransfers (n : Nat) (s : Lcd) : List Transfer :=
  Runs.emitted (fun s (_ : Unit) => lcdService1kHz s) s (List.replicate n ())

theorem latched_lcdTrace (ts : List Transfer) {l : PinLevels} (hl : l pinE = false) :
    lcdBus.latched l (lcdTrace ts) = ts ∧ lcdBus.after l (lcdTrace ts) pinE = false ∧
      lcdBus.WhileHigh LowersE l (lcdTrace ts) := by
  have h := lcdBus.latched_flatMap LowersE Transfer.send id (fun t (_ : t ∈ ts) => frame_send t) hl
  rw [List.map_id] at h
  exact h

/-- The part of `LCD_Init` between setting RS and E low and the five commands. -/
private def resetPulses : List PinWrite :=
  lcdWriteDataPins hd44780CmdResetBus ++ (List.replicate 3 [lcdPinE 1, lcdPinE 0]).flatten

private theorem latched_resetPulses {l : PinLevels} (hl : l pinE = false) (hrs : l pinRS = false) :
    lcdBus.latched l resetPulses = List.replicate 3 (.command hd44780CmdResetBus) ∧
      lcdBus.after l resetPulses pinE = false ∧ lcdBus.WhileHigh LowersE l resetPulses := by
  have hq : ∀ w ∈ lcdWriteDataPins hd44780CmdResetBus, ∀ l, lcdBus.enable (lcdBus.write l w) = lcdBus.enable l :=
    fun w hw => setup_quiet hd44780CmdResetBus 0 w (List.mem_cons_of_mem _ hw)
  obtain ⟨h1, h2, h3⟩ := lcdBus.quiet LowersE hq hl
  obtain ⟨h1', h2', h3'⟩ := lcdPulse.latched_replicate (q := LowersE) rfl 3 h2
  have hd : lcdBus.data (lcdBus.after l (lcdWriteDataPins hd44780CmdResetBus)) =
      .command hd44780CmdResetBus := by
    show Transfer.mk (lcdBus.after l _ pinRS) (busByte _) = ⟨false, hd44780CmdResetBus⟩
    rw [busByte_after_lcdWriteDataPins, after_of_notMem (by rw [pins_lcdWriteDataPins]; decide), hrs]
  rw [resetPulses, Bus.latched_append, Bus.after_append, Bus.whileHigh_append, h1, h1', hd]
  exact ⟨rfl, h2', h3, h3'⟩

private theorem lcdInitTrace_eq :
    lcdInitTrace = [lcdPinRS 0, lcdPinE 0] ++ (resetPulses ++ lcdTrace lcdInitCommands) := rfl

/-- `LCD_Init` from any levels: setting E low latches something only if E was high, and the rest is read back as
the three reset commands and the five commands. -/
theorem latched_lcdInitTrace (l : PinLevels) :
    lcdBus.latched l lcdInitTrace = lcdBus.latched l [lcdPinRS 0, lcdPinE 0] ++ lcdInitTransfers ∧
      lcdBus.after l lcdInitTrace pinE = false ∧
      (l pinE = false → lcdBus.latched l [lcdPinRS 0, lcdPinE 0] = [] ∧ lcdBus.WhileHigh LowersE l lcdInitTrace) := by
  have hl : lcdBus.after l [lcdPinRS 0, lcdPinE 0] pinE = false :=
    PinLevels.write_self (l.write (lcdPinRS 0)) (lcdPinE 0)
  have hrs : lcdBus.after l [lcdPinRS 0, lcdPinE 0] pinRS = false :=
    (PinLevels.write_of_ne _ (w := lcdPinE 0) (by decide)).trans (PinLevels.write_self l (lcdPinRS 0))
  obtain ⟨h1, h2, h3⟩ := latched_resetPulses hl hrs
  obtain ⟨h1', h2', h3'⟩ := latched_lcdTrace lcdInitCommands h2
  rw [lcdInitTrace_eq, Bus.latched_append, Bus.latched_append, Bus.after_append, Bus.after_append,
    Bus.whileHigh_append, Bus.whileHigh_append, h1, h1']
  refine ⟨rfl, h2', fun h => ?_⟩
  have hr : (l.write (lcdPinRS 0)) pinE = false := (PinLevels.write_of_ne l (w := lcdPinRS 0) (by decide)).trans h
  refine ⟨?_, ⟨?_, ?_, trivial⟩, h3, h3'⟩
  · simp only [Bus.latched, show lcdBus.enable l = false from h,
      show lcdBus.enable (lcdBus.write l (lcdPinRS 0)) = false from hr, Bool.false_and, Bool.false_eq_true,
      ↓reduceIte]
  · intro h'; rw [show lcdBus.enable l = false from h] at h'; cases h'
  · intro h'; rw [show lcdBus.enable (lcdBus.write l (lcdPinRS 0)) = false from hr] at h'; cases h'

theorem pin_mem_lcdPins_of_send {t : Transfer} {w : PinWrite} (hw : w ∈ t.send) : w.pin ∈ lcdPins := by
  have h := List.mem_map_of_mem (f := PinWrite.pin) hw
  have e : t.send.map PinWrite.pin = pinRS :: (dataPins ++ [pinE, pinE]) := rfl
  rw [e] at h
  revert h
  generalize w.pin = p
  exact fun h => (show pinRS :: (dataPins ++ [pinE, pinE]) ⊆ lcdPins by decide) h

theorem pin_mem_lcdPins_of_lcdTrace {ts : List Transfer} {w : PinWrite} (hw : w ∈ lcdTrace ts) :
    w.pin ∈ lcdPins := by
  obtain ⟨t, -, ht⟩ := List.mem_flatMap.1 hw
  exact pin_mem_lcdPins_of_send ht

theorem pin_mem_lcdPins_of_lcdInitTrace : ∀ w ∈ lcdInitTrace, w.pin ∈ lcdPins := by decide

/-- The trace `ws` from the levels `l` is read back from the pins as `ts`: the falling edges of E latch `ts`, RS
and the data pins are never written while E is high, the first write after E has gone high lowers it again and it
ends low, and no pin but the ten LCD pins ever changes. -/
structure ReadsBack (l : PinLevels) (ws : List PinWrite) (ts : List Transfer) : Prop where
  latched_eq : lcdBus.latched l ws = ts
  data_stable : lcdBus.WhileHigh (fun w => w.pin ∉ pinRS :: dataPins) l ws
  lowers_enable : lcdBus.WhileHigh LowersE l ws
  enable_after : lcdBus.after l ws pinE = false
  other_pins : ∀ ws', ws' <+: ws → ∀ p, p ∉ lcdPins → lcdBus.after l ws' p = l p

private theorem data_stable_of_lowersE {l : PinLevels} {ws : List PinWrite} (h : lcdBus.WhileHigh LowersE l ws) :
    lcdBus.WhileHigh (fun w => w.pin ∉ pinRS :: dataPins) l ws := by
  refine h.mono fun w hw => ?_
  rw [show w = lcdPinE 0 from hw]
  decide

private theorem other_pins_of_mem {ws : List PinWrite} (h : ∀ w ∈ ws, w.pin ∈ lcdPins) (l : PinLevels) :
    ∀ ws', ws' <+: ws → ∀ p, p ∉ lcdPins → lcdBus.after l ws' p = l p := by
  intro ws' hp p hmem
  refine after_of_notMem (fun hm => ?_) l
  obtain ⟨w, hw, rfl⟩ := List.mem_map.1 hm
  exact hmem (h w (hp.subset hw))

/-- The bus encoding is undone by latching on E: every list of transfers is read back, E is low after each of
them, and so is the trace of `LCD_Init` followed by any number of service calls. -/
theorem bus_reads_back (l : PinLevels) (hl : l pinE = false) :
    (∀ ts : List Transfer, ReadsBack l (lcdTrace ts) ts ∧
      ∀ ts', ts' <+: ts → lcdBus.after l (lcdTrace ts') pinE = false) ∧
    ∀ (s : Lcd) (n : Nat),
      ReadsBack l (lcdInitTrace ++ lcdTrace (serviceTransfers n (lcdInit s)))
        (lcdInitTransfers ++ serviceTransfers n (lcdInit s)) := by
  refine ⟨fun ts => ⟨?_, fun ts' _ => (latched_lcdTrace ts' hl).2.1⟩, fun s n => ?_⟩
  · obtain ⟨h1, h2, h3⟩ := latched_lcdTrace ts hl
    exact ⟨h1, data_stable_of_lowersE h3, h3, h2, other_pins_of_mem (fun w hw => pin_mem_lcdPins_of_lcdTrace hw) l⟩
  · obtain ⟨h1, h2, h3⟩ := latched_lcdInitTrace l
    obtain ⟨h1', h2', h3'⟩ := latched_lcdTrace (serviceTransfers n (lcdInit s)) h2
    have hw : lcdBus.WhileHigh LowersE l (lcdInitTrace ++ lcdTrace (serviceTransfers n (lcdInit s))) := by
      rw [Bus.whileHigh_append]
      exact ⟨(h3 hl).2, h3'⟩
    refine ⟨?_, data_stable_of_lowersE hw, hw, ?_, ?_⟩
    · rw [Bus.latched_append, h1, h1', (h3 hl).1, List.nil_append]
    · rw [Bus.after_append]; exact h2'
    · refine other_pins_of_mem (fun w hw => ?_) l
      rcases List.mem_append.1 hw with hw | hw
      · exact pin_mem_lcdPins_of_lcdInitTrace w hw
      · exact pin_mem_lcdPins_of_lcdTrace hw

theorem bus_reads_back_all_low :
    (fun _ => false : PinLevels) pinE = false ∧
      lcdBus.latched (fun _ => false) (lcdTrace [.command 0x80, .data 0x41]) = [.command 0x80, .data 0x41] :=
  ⟨rfl, ((bus_reads_back (fun _ => false) rfl).1 [.command 0x80, .data 0x41]).1.latched_eq⟩

end LcdKeypad
