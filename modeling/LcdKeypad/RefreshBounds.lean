import LcdKeypad.Panel

/-!
# The refresh stays inside the shadow buffer

The data phases of `LCD_Service1kHz` index the shadow buffer without a check of their own.
`lcdService1kHzChecked` is the service routine with a fault at every place where the bounds are taken for granted:
the read of the buffer, the argument of `LCD_GetBlink`, the increment of the index and the `default` of the switch.
In step with the refresh the index fits the phase (`Synced.refreshInBounds`), so in every state that is reached from
`LCD_Init` the checked routine raises no fault and does what `LCD_Service1kHz` does (`refresh_inBounds`).
-/

namespace LcdKeypad

/-! ### The checked service routine -/

inductive ServiceFault
  /-- `display_buffer[index]` lies past the buffer. -/
  | bufferRead (index : UInt8)
  /-- `LCD_GetBlink(position)` is called out of range. -/
  | getBlink (position : UInt8)
  /-- `++current_char_index` wraps. -/
  | increment (index : UInt8)
  /-- The `default` of the switch is taken. -/
  | fallback (phase : UInt8)
  deriving DecidableEq, Repr

def readBufferChecked (s : Lcd) (index : UInt8) : Except ServiceFault UInt8 :=
  if h : index.toNat < 32 then .ok s.displayBuffer[index.toNat] else .error (.bufferRead index)

def lcdGetBlinkChecked (position : UInt8) (s : Lcd) : Except ServiceFault UInt8 :=
  if position < lcdTotalChars then .ok (lcdGetBlink position s) else .error (.getBlink position)

def incrementChecked (index : UInt8) : Except ServiceFault UInt8 :=
  if index = 0xFF then .error (.increment index) else .ok (index + 1)

def serviceCharacterChecked (s : Lcd) (isBlinkBlankPhase : UInt8) : Except ServiceFault UInt8 := do
  let character ← readBufferChecked s s.currentCharIndex
  let blink ← lcdGetBlinkChecked s.currentCharIndex s
  return if blink ≠ 0 ∧ isBlinkBlankPhase ≠ 0 then space else character

/-- `LCD_Service1kHz` with the checks. -/
def lcdService1kHzChecked (s : Lcd) : Except ServiceFault (Lcd × List Transfer) :=
  let s := { s with millisecondCounter := s.millisecondCounter + 1 }
  let isBlinkBlankPhase : UInt8 := if s.millisecondCounter &&& 0x100 ≠ 0 then 1 else 0
  if s.refreshPhase = phaseSetRow0Address then
    return ({ s with currentCharIndex := 0, refreshPhase := phaseWriteRow0Data },
      [Transfer.command hd44780SetRow0Address])
  else if s.refreshPhase = phaseWriteRow0Data then do
    let character ← serviceCharacterChecked s isBlinkBlankPhase
    let index ← incrementChecked s.currentCharIndex
    let s := { s with currentCharIndex := index }
    return (if lcdColumns ≤ s.currentCharIndex then { s with refreshPhase := phaseSetRow1Address } else s,
      [Transfer.data character])
  else if s.refreshPhase = phaseSetRow1Address then
    return ({ s with currentCharIndex := lcdColumns, refreshPhase := phaseWriteRow1Data },
      [Transfer.command hd44780SetRow1Address])
  else if s.refreshPhase = phaseWriteRow1Data then do
    let character ← serviceCharacterChecked s isBlinkBlankPhase
    let index ← incrementChecked s.currentCharIndex
    let s := { s with currentCharIndex := index }
    return (if lcdTotalChars ≤ s.currentCharIndex then { s with refreshPhase := phaseSetRow0Address } else s,
      [Transfer.data character])
  else throw (.fallback s.refreshPhase)

@[simp] private theorem ok_bind {α β : Type} (a : α) (f : α → Except ServiceFault β) :
    (Except.ok a >>= f) = f a := rfl

@[simp] private theorem error_bind {α β : Type} (fault : ServiceFault) (f : α → Except ServiceFault β) :
    (Except.error fault >>= f) = .error fault := rfl

@[simp] private theorem pure_eq_ok {α : Type} (a : α) : (pure a : Except ServiceFault α) = .ok a := rfl

theorem readBufferChecked_of_lt {s : Lcd} {index : UInt8} (h : index.toNat < 32) :
    readBufferChecked s index = .ok (s.displayBuffer.toArray.getD index.toNat 0) := by
  rw [readBufferChecked, dif_pos h]
  simp [Array.getD_eq_getD_getElem?, h]

theorem lcdGetBlinkChecked_of_lt {s : Lcd} {position : UInt8} (h : position.toNat < 32) :
    lcdGetBlinkChecked position s = .ok (lcdGetBlink position s) :=
  if_pos (UInt8.lt_iff_toNat_lt.2 h)

theorem incrementChecked_of_lt {index : UInt8} (h : index.toNat < 32) : incrementChecked index = .ok (index + 1) := by
  apply if_neg
  rintro rfl
  revert h
  decide

theorem serviceCharacterChecked_of_lt {s : Lcd} (h : s.currentCharIndex.toNat < 32) (isBlinkBlankPhase : UInt8) :
    serviceCharacterChecked s isBlinkBlankPhase = .ok (serviceCharacter s isBlinkBlankPhase) := by
  simp [serviceCharacterChecked, serviceCharacter, readBufferChecked_of_lt h, lcdGetBlinkChecked_of_lt h]

/-- The phase is one of the four, and in the data phases the index lies in the buffer. -/
def IndexFits (s : Lcd) : Prop :=
  s.refreshPhase = phaseSetRow0Address ∨ s.refreshPhase = phaseSetRow1Address ∨
    ((s.refreshPhase = phaseWriteRow0Data ∨ s.refreshPhase = phaseWriteRow1Data) ∧ s.currentCharIndex.toNat < 32)

theorem serviceCharacterChecked_of_not_lt {s : Lcd} (h : ¬ s.currentCharIndex.toNat < 32) (isBlinkBlankPhase : UInt8) :
    serviceCharacterChecked s isBlinkBlankPhase = .error (.bufferRead s.currentCharIndex) := by
  rw [serviceCharacterChecked, readBufferChecked, dif_neg h]
  rfl

/-- The checked routine does what `LCD_Service1kHz` does exactly if the index fits. -/
theorem lcdService1kHzChecked_eq_ok_iff (s : Lcd) :
    lcdService1kHzChecked s = .ok (lcdService1kHz s) ↔ IndexFits s := by
  constructor
  · intro h
    by_contra hfits
    simp only [IndexFits, not_or, not_and] at hfits
    obtain ⟨hrow0, hrow1, hidx⟩ := hfits
    by_cases hdata0 : s.refreshPhase = phaseWriteRow0Data
    · have hlt := hidx (Or.inl hdata0)
      simp [lcdService1kHzChecked, hdata0, phases_ne, serviceCharacterChecked_of_not_lt, hlt] at h
    by_cases hdata1 : s.refreshPhase = phaseWriteRow1Data
    · have hlt := hidx (Or.inr hdata1)
      simp [lcdService1kHzChecked, hdata1, phases_ne, serviceCharacterChecked_of_not_lt, hlt] at h
    · simp [lcdService1kHzChecked, hrow0, hrow1, hdata0, hdata1] at h
  · rintro (hph | hph | ⟨hph | hph, hidx⟩)
    · simp [lcdService1kHzChecked, lcdService1kHz, hph]
    · simp [lcdService1kHzChecked, lcdService1kHz, hph, phases_ne]
    · simp [lcdService1kHzChecked, lcdService1kHz, hph, phases_ne, serviceCharacterChecked_of_lt,
        incrementChecked_of_lt, hidx]
    · simp [lcdService1kHzChecked, lcdService1kHz, hph, phases_ne, serviceCharacterChecked_of_lt,
        incrementChecked_of_lt, hidx]

/-! ### The bounds along runs -/

/-- The phase is one of the four, and the index fits it: below 16 in row 0, 16 when row 1 begins, from 16 to 31 in
row 1, and 32 when the cycle begins again, or 0 if no service call has been made since `LCD_Init`. -/
structure RefreshInBounds (b : Bench) : Prop where
  phase : b.lcd.refreshPhase = phaseSetRow0Address ∨ b.lcd.refreshPhase = phaseWriteRow0Data ∨
    b.lcd.refreshPhase = phaseSetRow1Address ∨ b.lcd.refreshPhase = phaseWriteRow1Data
  setRow0Address : b.lcd.refreshPhase = phaseSetRow0Address →
    b.lcd.currentCharIndex = if b.calls.length = 0 then 0 else lcdTotalChars
  writeRow0Data : b.lcd.refreshPhase = phaseWriteRow0Data → b.lcd.currentCharIndex < lcdColumns
  setRow1Address : b.lcd.refreshPhase = phaseSetRow1Address → b.lcd.currentCharIndex = lcdColumns
  writeRow1Data : b.lcd.refreshPhase = phaseWriteRow1Data →
    lcdColumns ≤ b.lcd.currentCharIndex ∧ b.lcd.currentCharIndex < lcdTotalChars

theorem Synced.refreshInBounds {b : Bench} (h : Synced b) : RefreshInBounds b := by
  have h16 : lcdColumns.toNat = 16 := rfl
  have h32 : lcdTotalChars.toNat = 32 := rfl
  -- the phase of `h.refresh` decides which field says something
  have other : ∀ {phase phase' : UInt8} {P : Prop}, b.lcd.refreshPhase = phase → phase ≠ phase' →
      b.lcd.refreshPhase = phase' → P := fun hph hne hph' => absurd (hph.symm.trans hph') hne
  rcases h.refresh with ⟨-, hph, hidx⟩ | ⟨h1, hn16, hph, hidx, -⟩ | ⟨-, hph, hidx⟩ | ⟨h18, hph, hidx, -⟩
  · refine ⟨Or.inl hph, fun _ => ?_, other hph (by decide), other hph (by decide), other hph (by decide)⟩
    apply UInt8.toNat_inj.1
    rw [hidx]
    split <;> rfl
  · refine ⟨Or.inr (Or.inl hph), other hph (by decide), fun _ => ?_, other hph (by decide), other hph (by decide)⟩
    rw [UInt8.lt_iff_toNat_lt]
    omega
  · refine ⟨Or.inr (Or.inr (Or.inl hph)), other hph (by decide), other hph (by decide), fun _ => ?_,
      other hph (by decide)⟩
    exact UInt8.toNat_inj.1 hidx
  · refine ⟨Or.inr (Or.inr (Or.inr hph)), other hph (by decide), other hph (by decide), other hph (by decide),
      fun _ => ?_⟩
    rw [UInt8.le_iff_toNat_le, UInt8.lt_iff_toNat_lt]
    omega

theorem RefreshInBounds.indexFits {b : Bench} (h : RefreshInBounds b) : IndexFits b.lcd := by
  have h16 : lcdColumns.toNat = 16 := rfl
  have h32 : lcdTotalChars.toNat = 32 := rfl
  rcases h.phase with hph | hph | hph | hph
  · exact Or.inl hph
  · have hlt := UInt8.lt_iff_toNat_lt.1 (h.writeRow0Data hph)
    exact Or.inr (Or.inr ⟨Or.inl hph, by omega⟩)
  · exact Or.inr (Or.inl hph)
  · have hlt := UInt8.lt_iff_toNat_lt.1 (h.writeRow1Data hph).2
    exact Or.inr (Or.inr ⟨Or.inr hph, hlt⟩)

/-- In every state that any calls and any interleaved service calls reach from `LCD_Init`, between any two of their
atomic steps, the index fits the phase, and `LCD_Service1kHz` reads inside the buffer, asks `LCD_GetBlink` about
positions of the display only, increments the index without a wrap and never takes the `default`. -/
theorem refresh_inBounds (b : Bench) (calls : List ApiCall) (n : Nat) :
    RefreshInBounds (b.run (.init :: (calls.flatMap ApiCall.events).take n)) ∧
      lcdService1kHzChecked (b.run (.init :: (calls.flatMap ApiCall.events).take n)).lcd =
        .ok (lcdService1kHz (b.run (.init :: (calls.flatMap ApiCall.events).take n)).lcd) := by
  have h := (synced_run b ((calls.flatMap ApiCall.events).take n)).refreshInBounds
  exact ⟨h, (lcdService1kHzChecked_eq_ok_iff _).2 h.indexFits⟩

end LcdKeypad
