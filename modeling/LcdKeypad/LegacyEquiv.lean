import LcdKeypad.LcdBus
import LcdKeypad.Legacy
import LcdKeypad.Refresh

/-!
# The legacy driver latches the same bytes

One call of `LCD_Service1kHz` is simulated by three calls of `WriteLCD`: set up the byte, raise the enable line,
lower it.  The relation (`SameRefresh`) identifies `lcd_sm` with the number of the service call in its cycle of 34,
through both row switches and the wrap of the cycle.  Without blinking the two drivers therefore latch the same
pairs of RS and data byte, however the shadow buffer changes between the calls (`latched_writeLCD_eq`).
-/

namespace LcdKeypad

open Strobe

abbrev BufferUpdate := Vector UInt8 32 → Vector UInt8 32

/-! ### The two machines -/

structure LegacyLines where
  data : UInt8
  rs : Bool
  en1 : Bool

def LegacyLines.write (l : LegacyLines) : PortWrite → LegacyLines
  | .lcdData data => { l with data := data }
  | .lcdRs level => { l with rs := level }
  | .lcdEn1 level => { l with en1 := level }

def legacyBus : Bus LegacyLines PortWrite Transfer where
  write := LegacyLines.write
  enable l := l.en1
  data l := ⟨l.rs, l.data⟩

/-- An update of the shadow buffer, then a call of `LCD_Service1kHz`. -/
def serviceStep (s : Lcd) (update : BufferUpdate) : Lcd × List PinWrite :=
  let r := lcdService1kHz { s with displayBuffer := update s.displayBuffer }
  (r.1, lcdTrace r.2)

def writeStep (s : LegacyLcd) (update : BufferUpdate) : LegacyLcd × List PortWrite :=
  writeLCD { s with displayBuffer := update s.displayBuffer }

/-- The update before a service call, before the first of the three calls of `WriteLCD`. -/
def writeBlock (update : BufferUpdate) : List BufferUpdate := [update, id, id]

/-! ### Three calls of `WriteLCD` -/

/-- The writes of the three calls that send `t`; a command leaves RS high. -/
def legacySend (t : Transfer) : List PortWrite :=
  [.lcdData t.byte, .lcdRs t.rs, .lcdEn1 true, .lcdEn1 false] ++ (if t.rs then [] else [.lcdRs true])

/-- From any levels the three calls latch exactly `t`. -/
theorem latched_legacySend (t : Transfer) (l : LegacyLines) : legacyBus.latched l (legacySend t) = [t] := by
  obtain ⟨data, rs, en1⟩ := l
  obtain ⟨rs', byte⟩ := t
  cases en1 <;> cases rs' <;> rfl

def nextLcdSm (lcdSm : UInt8) : UInt8 := if 33 < lcdSm + 1 then 0 else lcdSm + 1

/-- What the legacy driver sends at `lcd_sm` when nothing blinks. -/
def legacyTransfer (s : LegacyLcd) : Transfer :=
  if s.lcdSm = 0 then .command line1
  else if s.lcdSm = 17 then .command line2
  else .data (s.displayBuffer.toArray.getD (if 16 < s.lcdSm then s.lcdSm - 2 else s.lcdSm - 1).toNat 0)

private theorem uint8_ne : ¬ (17 : UInt8) = 0 ∧ ¬ (1 : UInt8) = 0 ∧ ¬ (2 : UInt8) = 0 ∧ ¬ (2 : UInt8) = 1 := by decide

/-- What a call of `WriteLCD` does to the variables that matter. -/
structure WriteTo (s s' : LegacyLcd) (lcdStatus lcdSm : UInt8) : Prop where
  lcdStatus_eq : s'.lcdStatus = lcdStatus
  lcdSm_eq : s'.lcdSm = lcdSm
  blinkFlags_eq : s'.blinkFlags = s.blinkFlags
  displayBuffer_eq : s'.displayBuffer = s.displayBuffer

theorem writeLCD_of_status_zero {s : LegacyLcd} (hstatus : s.lcdStatus = 0) (hblink : s.blinkFlags = 0) :
    (writeLCD s).2 = [.lcdData (legacyTransfer s).byte, .lcdRs (legacyTransfer s).rs] ∧
      WriteTo s (writeLCD s).1 1 s.lcdSm := by
  unfold writeLCD writeLCDCommand legacyTransfer
  simp only [hstatus, ↓reduceIte]
  by_cases h0 : s.lcdSm = 0
  · simp only [h0, ↓reduceIte]
    exact ⟨rfl, rfl, rfl, rfl, rfl⟩
  by_cases h17 : s.lcdSm = 17
  · simp only [h17, uint8_ne, ↓reduceIte]
    exact ⟨rfl, rfl, rfl, rfl, rfl⟩
  · have hget : ∀ loc, getBlinkLocation loc { s with blinkcounter := s.blinkcounter + 1, lcdStatus := 0 } = 0 := by
      intro loc
      unfold getBlinkLocation
      simp only [hblink, UInt32.zero_and, ne_eq, not_true_eq_false, ↓reduceIte]
    simp only [h0, h17, ↓reduceIte]
    refine ⟨?_, rfl, rfl, rfl, rfl⟩
    rw [hget, if_neg (fun h => h.1 rfl)]
    rfl

theorem writeLCD_of_status_one {s : LegacyLcd} (hstatus : s.lcdStatus = 1) :
    (writeLCD s).2 = [.lcdEn1 true] ∧ WriteTo s (writeLCD s).1 2 s.lcdSm := by
  unfold writeLCD writeLCDCommand
  simp only [hstatus, uint8_ne, ↓reduceIte]
  split
  · exact ⟨rfl, rfl, rfl, rfl, rfl⟩
  split
  · exact ⟨rfl, rfl, rfl, rfl, rfl⟩
  · exact ⟨rfl, rfl, rfl, rfl, rfl⟩

theorem writeLCD_of_status_two {s : LegacyLcd} (hstatus : s.lcdStatus = 2) :
    (writeLCD s).2 = .lcdEn1 false :: (if (legacyTransfer s).rs then [] else [.lcdRs true]) ∧
      WriteTo s (writeLCD s).1 0 (nextLcdSm s.lcdSm) := by
  unfold writeLCD writeLCDCommand legacyTransfer
  simp only [hstatus, uint8_ne, ↓reduceIte]
  by_cases h0 : s.lcdSm = 0
  · simp only [h0, ↓reduceIte]
    exact ⟨rfl, rfl, rfl, rfl, rfl⟩
  by_cases h17 : s.lcdSm = 17
  · simp only [h17, uint8_ne, ↓reduceIte]
    exact ⟨rfl, rfl, rfl, rfl, rfl⟩
  · simp only [h0, h17, ↓reduceIte]
    exact ⟨rfl, rfl, rfl, rfl, rfl⟩

private theorem legacyTransfer_rs {s s' : LegacyLcd} (h : s'.lcdSm = s.lcdSm) :
    (legacyTransfer s').rs = (legacyTransfer s).rs := by
  unfold legacyTransfer
  rw [h]
  split
  · rfl
  split
  · rfl
  · rfl

/-- Three calls of `WriteLCD` send one byte and go on to the next. -/
theorem writeBlock_spec {s : LegacyLcd} (hstatus : s.lcdStatus = 0) (hblink : s.blinkFlags = 0)
    (update : BufferUpdate) :
    Runs.emitted writeStep s (writeBlock update) =
      legacySend (legacyTransfer { s with displayBuffer := update s.displayBuffer }) ∧
    WriteTo { s with displayBuffer := update s.displayBuffer } (Runs.final writeStep s (writeBlock update)) 0
      (nextLcdSm s.lcdSm) := by
  obtain ⟨h0, hs0⟩ := writeLCD_of_status_zero (s := { s with displayBuffer := update s.displayBuffer }) hstatus hblink
  obtain ⟨h1, hs1⟩ := writeLCD_of_status_one hs0.lcdStatus_eq
  obtain ⟨h2, hs2⟩ := writeLCD_of_status_two hs1.lcdStatus_eq
  have hsm := hs1.lcdSm_eq.trans hs0.lcdSm_eq
  rw [legacyTransfer_rs hsm] at h2
  rw [hsm] at hs2
  constructor
  · show (writeLCD _).2 ++ ((writeLCD (writeLCD _).1).2 ++ ((writeLCD (writeLCD (writeLCD _).1).1).2 ++ [])) = _
    rw [h0, h1, h2, List.append_nil]
    rfl
  · show WriteTo _ (writeLCD (writeLCD (writeLCD _).1).1).1 0 _
    exact ⟨hs2.lcdStatus_eq, hs2.lcdSm_eq, hs2.blinkFlags_eq.trans (hs1.blinkFlags_eq.trans hs0.blinkFlags_eq),
      hs2.displayBuffer_eq.trans (hs1.displayBuffer_eq.trans hs0.displayBuffer_eq)⟩

/-! ### The simulation -/

/-- The two drivers are at the same byte of the cycle, hold the same text and blink nowhere. -/
structure SameRefresh (n : Nat) (s : Lcd) (t : LegacyLcd) : Prop where
  refresh : ∃ addressCounter, RefreshAt n s addressCounter
  lcdSm_eq : t.lcdSm.toNat = n % 34
  lcdStatus_eq : t.lcdStatus = 0
  blinkMask_eq : s.blinkMask = 0
  blinkFlags_eq : t.blinkFlags = 0
  displayBuffer_eq : t.displayBuffer = s.displayBuffer

private theorem shownCharacter_of_blinkMask {s : Lcd} (h : s.blinkMask = 0) (p : Fin 32) :
    shownCharacter s p = s.displayBuffer.get p := by
  have hget : lcdGetBlink (UInt8.ofNat p) s = 0 := by
    unfold lcdGetBlink
    split
    · rfl
    · rw [h, UInt32.zero_shiftRight, UInt32.zero_and]
      rfl
  exact if_neg fun h => h.1 hget

/-- `lcd_sm`, the byte it names, and the call of the service routine that sends this byte. -/
theorem SameRefresh.legacyTransfer_eq {n : Nat} {s : Lcd} {t : LegacyLcd} (h : SameRefresh n s t) :
    legacyTransfer t = transferAt (n % 34) s := by
  have hn := h.lcdSm_eq
  have hlt : n % 34 < 34 := Nat.mod_lt _ (by decide)
  unfold legacyTransfer
  by_cases h0 : t.lcdSm = 0
  · rw [if_pos h0, ← hn, h0]
    rfl
  by_cases h17 : t.lcdSm = 17
  · rw [if_neg h0, if_pos h17, ← hn, h17]
    rfl
  have hne0 : n % 34 ≠ 0 := fun he => h0 (UInt8.toNat_inj.1 (hn.trans he))
  have hne17 : n % 34 ≠ 17 := fun he => h17 (UInt8.toNat_inj.1 (hn.trans he))
  -- the index of the character: `lcd_sm - 1` in row 0 and `lcd_sm - 2` in row 1
  obtain ⟨p, hcell, hp⟩ : ∃ p : Fin 32, cellOf (n % 34) = some p ∧
      (if 16 < t.lcdSm then t.lcdSm - 2 else t.lcdSm - 1).toNat = p.val := by
    by_cases h16 : n % 34 ≤ 16
    · have hrow : ¬ 16 < t.lcdSm := by
        simp [UInt8.lt_iff_toNat_lt, hn]
        omega
      have hle : 1 ≤ t.lcdSm := by
        simp [UInt8.le_iff_toNat_le, hn]
        omega
      refine ⟨⟨n % 34 - 1, by omega⟩, dif_pos ⟨by omega, h16⟩, ?_⟩
      rw [if_neg hrow, UInt8.toNat_sub_of_le _ _ hle, hn]
      rfl
    · have hrow : 16 < t.lcdSm := by
        simp [UInt8.lt_iff_toNat_lt, hn]
        omega
      have hle : 2 ≤ t.lcdSm := by
        simp [UInt8.le_iff_toNat_le, hn]
        omega
      refine ⟨⟨n % 34 - 2, by omega⟩, (dif_neg (by omega)).trans (dif_pos ⟨by omega, by omega⟩), ?_⟩
      rw [if_pos hrow, UInt8.toNat_sub_of_le _ _ hle, hn]
      rfl
  have hget : s.displayBuffer.toArray.getD p.val 0 = s.displayBuffer.get p := by
    rw [Array.getD_eq_getD_getElem?, Array.getElem?_eq_getElem (by simp)]
    rfl
  simp only [h0, h17, ↓reduceIte, hp, transferAt, hcell, shownCharacter_of_blinkMask h.blinkMask_eq,
    h.displayBuffer_eq, hget]

private theorem toNat_nextLcdSm {lcdSm : UInt8} {n : Nat} (h : lcdSm.toNat = n % 34) :
    (nextLcdSm lcdSm).toNat = (n + 1) % 34 := by
  have hsucc : (lcdSm + 1).toNat = n % 34 + 1 := by
    simp [UInt8.toNat_add, h]
    omega
  have hwrap : 33 < lcdSm + 1 ↔ 33 < n % 34 + 1 := by
    rw [UInt8.lt_iff_toNat_lt, hsucc]
    rfl
  unfold nextLcdSm
  by_cases hlast : 33 < n % 34 + 1
  · rw [if_pos (hwrap.2 hlast), UInt8.toNat_zero]
    omega
  · rw [if_neg fun h => hlast (hwrap.1 h), hsucc]
    omega

/-- One call of the service routine against three calls of `WriteLCD`: both latch the same pair, and the drivers
are at the same byte again. -/
theorem SameRefresh.step {n : Nat} {s : Lcd} {t : LegacyLcd} (h : SameRefresh n s t) (update : BufferUpdate) :
    ∃ b : Transfer, (serviceStep s update).2 = lcdTrace [b] ∧
      Runs.emitted writeStep t (writeBlock update) = legacySend b ∧
      SameRefresh (n + 1) (serviceStep s update).1 (Runs.final writeStep t (writeBlock update)) := by
  obtain ⟨addressCounter, hr⟩ := h.refresh
  have h' : SameRefresh n { s with displayBuffer := update s.displayBuffer }
      { t with displayBuffer := update t.displayBuffer } :=
    ⟨⟨addressCounter, hr⟩, h.lcdSm_eq, h.lcdStatus_eq, h.blinkMask_eq, h.blinkFlags_eq,
      congrArg update h.displayBuffer_eq⟩
  obtain ⟨hr', htransfers, -⟩ := lcdService1kHz_step (p := ⟨fun _ => space, addressCounter⟩)
    (s := { s with displayBuffer := update s.displayBuffer }) hr
  obtain ⟨hbuf, hmask⟩ := lcdService1kHz_frame { s with displayBuffer := update s.displayBuffer }
  obtain ⟨hwrites, hto⟩ := writeBlock_spec h.lcdStatus_eq h.blinkFlags_eq update
  refine ⟨transferAt (n % 34) { s with displayBuffer := update s.displayBuffer }, ?_, ?_, ?_⟩
  · simp only [serviceStep, htransfers]
  · rw [hwrites, h'.legacyTransfer_eq]
  · exact ⟨⟨_, hr'⟩, by rw [hto.lcdSm_eq]; exact toNat_nextLcdSm h.lcdSm_eq, hto.lcdStatus_eq,
      hmask.trans h.blinkMask_eq, hto.blinkFlags_eq.trans h.blinkFlags_eq,
      hto.displayBuffer_eq.trans ((congrArg update h.displayBuffer_eq).trans hbuf.symm)⟩

/-! ### Whole runs -/

/-- The updates before the calls of `WriteLCD`: those before service call `i` come before call `3 * i`. -/
def legacySchedule (schedule : Nat → BufferUpdate) (i : Nat) : BufferUpdate :=
  if i % 3 = 0 then schedule (i / 3) else id

theorem map_legacySchedule (schedule : Nat → BufferUpdate) (n : Nat) :
    (List.range (3 * n)).map (legacySchedule schedule) = ((List.range n).map schedule).flatMap writeBlock := by
  induction n with
  | zero => rfl
  | succ n ih =>
    have hthree : 3 * (n + 1) = 3 * n + 1 + 1 + 1 := by omega
    have h0 : legacySchedule schedule (3 * n) = schedule n := by
      simp [legacySchedule]
    have h1 : legacySchedule schedule (3 * n + 1) = id := if_neg (by omega)
    have h2 : legacySchedule schedule (3 * n + 1 + 1) = id := if_neg (by omega)
    simp only [hthree, List.range_succ, List.map_append, List.map_cons, List.map_nil, List.flatMap_append, h0, h1, h2,
      ih, List.append_assoc]
    rfl

/-- `n` calls of `LCD_Service1kHz` after `LCD_Init` and `3 * n` calls of `WriteLCD` from its initial statics latch
the same pairs of RS and data byte, from any levels of the pins and lines, when both start from the same text, see
the same updates of it, and nothing blinks. -/
theorem latched_writeLCD_eq (s : Lcd) (l : PinLevels) (lines : LegacyLines) (text : Vector UInt8 32) (n : Nat)
    (schedule : Nat → BufferUpdate) :
    legacyBus.latched lines
        (Runs.emitted writeStep (.boot text) ((List.range (3 * n)).map (legacySchedule schedule))) =
      lcdBus.latched (lcdBus.after l lcdInitTrace)
        (Runs.emitted serviceStep { lcdInit s with displayBuffer := text } ((List.range n).map schedule)) := by
  have hstep : ∀ (s : Lcd × PinLevels) (t : LegacyLcd × LegacyLines) (update : BufferUpdate),
      (s.2 pinE = false ∧ ∃ n, SameRefresh n s.1 t.1) →
      Runs.emitted (legacyBus.strobed writeStep) t (writeBlock update) = (lcdBus.strobed serviceStep s update).2 ∧
        ((lcdBus.strobed serviceStep s update).1.2 pinE = false ∧ ∃ n, SameRefresh n
          (lcdBus.strobed serviceStep s update).1.1 (Runs.final (legacyBus.strobed writeStep) t (writeBlock update)).1) := by
    rintro ⟨s, l⟩ ⟨t, lines⟩ update ⟨hl, n, h⟩
    obtain ⟨b, hs, ht, h'⟩ := h.step update
    obtain ⟨hlatched, hlow, -⟩ := latched_lcdTrace [b] hl
    rw [Bus.emitted_strobed, Bus.final_strobed, ht, latched_legacySend]
    refine ⟨?_, ?_, n + 1, h'⟩
    · simp only [Bus.strobed, hs, hlatched]
    · simp only [Bus.strobed, hs]
      exact hlow
  have hinit : (lcdBus.after l lcdInitTrace) pinE = false ∧
      ∃ n, SameRefresh n { lcdInit s with displayBuffer := text } (.boot text) :=
    ⟨(latched_lcdInitTrace l).2.1, 0, ⟨0, Or.inl ⟨rfl, rfl, rfl⟩⟩, rfl, rfl, rfl, rfl, rfl⟩
  have h := Runs.emitted_of_simulation writeBlock hstep
    (s := ({ lcdInit s with displayBuffer := text }, lcdBus.after l lcdInitTrace)) (t := (.boot text, lines)) hinit
    ((List.range n).map schedule)
  rw [Bus.emitted_strobed, Bus.emitted_strobed] at h
  rw [map_legacySchedule]
  exact h.1

end LcdKeypad
