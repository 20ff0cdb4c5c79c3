import LcdKeypad.General.Raster
import LcdKeypad.Hd44780

/-!
# The refresh cycle

`LCD_Service1kHz` runs in a cycle of 34 calls.  `RefreshAt n s a` says where the driver and the panel's address
counter `a` are before call number `n` since `LCD_Init`: in the data phases the counter is the address of the cell
to be written, and the address phases, where it is arbitrary, set it again.  One call leads from `n` to `n + 1` and
stores exactly the character of the cell scheduled for `n % 34` (`lcdService1kHz_step`).
-/

namespace LcdKeypad

/-- The cell that call `r` of a cycle writes. -/
def cellOf (r : Nat) : Option (Fin 32) :=
  if h : 1 ≤ r ∧ r ≤ 16 then some ⟨r - 1, by omega⟩
  else if h : 18 ≤ r ∧ r ≤ 33 then some ⟨r - 2, by omega⟩
  else none

def slotAddress (r : Nat) : Option Nat := (cellOf r).map fun p => ddramAddress p.val

def slotOf (p : Fin 32) : Nat := if p.val < 16 then p.val + 1 else p.val + 2

theorem cellOf_slotOf (p : Fin 32) : slotOf p < 34 ∧ cellOf (slotOf p) = some p := by
  revert p; decide

theorem ddramAddress_injective {p q : Fin 32} (h : ddramAddress p.val = ddramAddress q.val) : p = q := by
  unfold ddramAddress at h
  apply Fin.ext
  split at h <;> split at h <;> omega

theorem slotAddress_injective {r r' a : Nat} (_hr : r < 34) (_hr' : r' < 34) (h : slotAddress r = some a)
    (h' : slotAddress r' = some a) : r = r' := by
  unfold slotAddress at h h'
  obtain ⟨p, hp, rfl⟩ := Option.map_eq_some_iff.1 h
  obtain ⟨q, hq, hpq⟩ := Option.map_eq_some_iff.1 h'
  obtain rfl := ddramAddress_injective hpq
  unfold cellOf at hp hq
  split at hp <;> split at hq <;> (try split at hp) <;> (try split at hq) <;> simp at hp hq
  all_goals
    subst hp
    have := congrArg Fin.val hq
    simp only at this
    omega

/-- What a call of `LCD_Service1kHz` in the state `s` sends for the cell `p`: the shadow cell, or a space if the
position blinks and bit 8 of the incremented counter is set. -/
def shownCharacter (s : Lcd) (p : Fin 32) : UInt8 :=
  if lcdGetBlink (UInt8.ofNat p) s ≠ 0 ∧ (s.millisecondCounter + 1) &&& 0x100 ≠ 0 then space
  else s.displayBuffer[p]

def transferAt (r : Nat) (s : Lcd) : Transfer :=
  match cellOf r with
  | some p => .data (shownCharacter s p)
  | none => .command (if r = 0 then hd44780SetRow0Address else hd44780SetRow1Address)

/-- Where the refresh is before call number `n`. -/
def RefreshAt (n : Nat) (s : Lcd) (addressCounter : Nat) : Prop :=
  (n % 34 = 0 ∧ s.refreshPhase = phaseSetRow0Address ∧ s.currentCharIndex.toNat = if n = 0 then 0 else 32) ∨
  (1 ≤ n % 34 ∧ n % 34 ≤ 16 ∧ s.refreshPhase = phaseWriteRow0Data ∧ s.currentCharIndex.toNat + 1 = n % 34 ∧
    addressCounter = s.currentCharIndex.toNat) ∨
  (n % 34 = 17 ∧ s.refreshPhase = phaseSetRow1Address ∧ s.currentCharIndex.toNat = 16) ∨
  (18 ≤ n % 34 ∧ s.refreshPhase = phaseWriteRow1Data ∧ s.currentCharIndex.toNat + 2 = n % 34 ∧
    addressCounter + 16 = 0x40 + s.currentCharIndex.toNat)

/-! ### One call -/

/-- The service routine writes neither the shadow buffer nor the blink mask. -/
theorem lcdService1kHz_frame (s : Lcd) : (lcdService1kHz s).1.displayBuffer = s.displayBuffer ∧
    (lcdService1kHz s).1.blinkMask = s.blinkMask := by
  unfold lcdService1kHz
  dsimp only
  split
  · exact ⟨rfl, rfl⟩
  split
  · split <;> exact ⟨rfl, rfl⟩
  split
  · exact ⟨rfl, rfl⟩
  split
  · split <;> exact ⟨rfl, rfl⟩
  · exact ⟨rfl, rfl⟩

private theorem serviceCharacter_eq {s : Lcd} {p : Fin 32} (h : s.currentCharIndex.toNat = p.val) :
    serviceCharacter { s with millisecondCounter := s.millisecondCounter + 1 }
      (if (s.millisecondCounter + 1) &&& 0x100 ≠ 0 then 1 else 0) = shownCharacter s p := by
  have hidx : s.currentCharIndex = UInt8.ofNat p.val := by rw [← h]; exact (UInt8.ofNat_toNat ..).symm
  have hcell : s.displayBuffer.toArray.getD p.val 0 = s.displayBuffer[p] := by
    simp [Array.getD_eq_getD_getElem?]
  have hblink : lcdGetBlink s.currentCharIndex { s with millisecondCounter := s.millisecondCounter + 1 } =
      lcdGetBlink (UInt8.ofNat p.val) s := by rw [← hidx]; rfl
  unfold serviceCharacter shownCharacter
  simp only [h, hcell, hblink]
  by_cases hb : (s.millisecondCounter + 1) &&& 0x100 ≠ 0 <;> simp [hb]

private theorem exec_setAddress (p : Hd44780) (byte : UInt8) (h : byte &&& 0x80 ≠ 0) :
    p.exec (.command byte) = { p with addressCounter := (byte &&& 0x7F).toNat } :=
  if_pos h

private theorem exec_data (p : Hd44780) (byte : UInt8) :
    p.exec (.data byte) = ⟨Function.update p.ddram p.addressCounter byte, p.addressCounter + 1⟩ := rfl

/-- The phases are told apart by their numbers. -/
theorem phases_ne : ¬ phaseWriteRow0Data = phaseSetRow0Address ∧ ¬ phaseSetRow1Address = phaseSetRow0Address ∧
    ¬ phaseSetRow1Address = phaseWriteRow0Data ∧ ¬ phaseWriteRow1Data = phaseSetRow0Address ∧
    ¬ phaseWriteRow1Data = phaseWriteRow0Data ∧ ¬ phaseWriteRow1Data = phaseSetRow1Address := by decide

private theorem lcdService1kHz_of_setRow0Address {s : Lcd} (hph : s.refreshPhase = phaseSetRow0Address) :
    lcdService1kHz s = ({ s with
        millisecondCounter := s.millisecondCounter + 1
        currentCharIndex := 0
        refreshPhase := phaseWriteRow0Data }, [.command hd44780SetRow0Address]) := by
  simp only [lcdService1kHz, hph, ↓reduceIte]

private theorem lcdService1kHz_of_setRow1Address {s : Lcd} (hph : s.refreshPhase = phaseSetRow1Address) :
    lcdService1kHz s = ({ s with
        millisecondCounter := s.millisecondCounter + 1
        currentCharIndex := lcdColumns
        refreshPhase := phaseWriteRow1Data }, [.command hd44780SetRow1Address]) := by
  simp only [lcdService1kHz, hph, phases_ne, ↓reduceIte]

private theorem lcdService1kHz_of_writeRow0Data {s : Lcd} (hph : s.refreshPhase = phaseWriteRow0Data) {p : Fin 32}
    (hp : s.currentCharIndex.toNat = p.val) : lcdService1kHz s = ({ s with
        millisecondCounter := s.millisecondCounter + 1
        currentCharIndex := s.currentCharIndex + 1
        refreshPhase := if lcdColumns ≤ s.currentCharIndex + 1 then phaseSetRow1Address else phaseWriteRow0Data },
      [.data (shownCharacter s p)]) := by
  by_cases hend : lcdColumns ≤ s.currentCharIndex + 1
  · simp only [lcdService1kHz, hph, phases_ne, hend, ↓reduceIte, ← serviceCharacter_eq hp]
  · simp only [lcdService1kHz, hph, phases_ne, hend, ↓reduceIte, ← serviceCharacter_eq hp]

private theorem lcdService1kHz_of_writeRow1Data {s : Lcd} (hph : s.refreshPhase = phaseWriteRow1Data) {p : Fin 32}
    (hp : s.currentCharIndex.toNat = p.val) : lcdService1kHz s = ({ s with
        millisecondCounter := s.millisecondCounter + 1
        currentCharIndex := s.currentCharIndex + 1
        refreshPhase := if lcdTotalChars ≤ s.currentCharIndex + 1 then phaseSetRow0Address else phaseWriteRow1Data },
      [.data (shownCharacter s p)]) := by
  by_cases hend : lcdTotalChars ≤ s.currentCharIndex + 1
  · simp only [lcdService1kHz, hph, phases_ne, hend, ↓reduceIte, ← serviceCharacter_eq hp]
  · simp only [lcdService1kHz, hph, phases_ne, hend, ↓reduceIte, ← serviceCharacter_eq hp]

private theorem toNat_succ {i : UInt8} (h : i.toNat < 32) : (i + 1).toNat = i.toNat + 1 := by
  simp [UInt8.toNat_add]
  omega

private theorem le_succ_iff {i : UInt8} (h : i.toNat < 32) (limit : UInt8) :
    limit ≤ i + 1 ↔ limit.toNat ≤ i.toNat + 1 := by
  rw [UInt8.le_iff_toNat_le, toNat_succ h]

/-- The refresh goes from call `n` to call `n + 1`, in an address phase with the counter that the command sets, in a
data phase with the next one. -/
private theorem refreshAt_lcdService1kHz {n : Nat} {s : Lcd} {p : Hd44780} (h : RefreshAt n s p.addressCounter) :
    RefreshAt (n + 1) (lcdService1kHz s).1 ((lcdService1kHz s).2.foldl Hd44780.exec p).addressCounter := by
  rcases h with ⟨hn, hph, hidx⟩ | ⟨h1, h16, hph, hidx, hac⟩ | ⟨hn, hph, hidx⟩ | ⟨h18, hph, hidx, hac⟩
  · have hcounter : (p.exec (.command hd44780SetRow0Address)).addressCounter = 0 := by
      rw [exec_setAddress p hd44780SetRow0Address (by decide)]
      rfl
    rw [lcdService1kHz_of_setRow0Address hph]
    exact Or.inr (Or.inl ⟨by omega, by omega, rfl, by simp; omega, hcounter⟩)
  · have hlt : s.currentCharIndex.toNat < 32 := by omega
    have hsucc := toNat_succ hlt
    have hend := le_succ_iff hlt lcdColumns
    have h16' : lcdColumns.toNat = 16 := rfl
    rw [h16'] at hend
    rw [lcdService1kHz_of_writeRow0Data hph (p := ⟨s.currentCharIndex.toNat, hlt⟩) rfl]
    by_cases hlast : 16 ≤ s.currentCharIndex.toNat + 1
    · refine Or.inr (Or.inr (Or.inl ⟨by omega, if_pos (hend.2 hlast), ?_⟩))
      simp only [hsucc]
      omega
    · refine Or.inr (Or.inl ⟨by omega, by omega, if_neg (fun h => hlast (hend.1 h)), ?_, ?_⟩)
      · simp only [hsucc]
        omega
      · simp only [List.foldl_cons, List.foldl_nil, exec_data, hsucc, hac]
  · have hcounter : (p.exec (.command hd44780SetRow1Address)).addressCounter = 0x40 := by
      rw [exec_setAddress p hd44780SetRow1Address (by decide)]
      rfl
    rw [lcdService1kHz_of_setRow1Address hph]
    refine Or.inr (Or.inr (Or.inr ⟨by omega, rfl, ?_, ?_⟩))
    · simp [lcdColumns]
      omega
    · simp [lcdColumns, hcounter]
  · have hlt : s.currentCharIndex.toNat < 32 := by omega
    have hsucc := toNat_succ hlt
    have hend := le_succ_iff hlt lcdTotalChars
    have h32' : lcdTotalChars.toNat = 32 := rfl
    rw [h32'] at hend
    rw [lcdService1kHz_of_writeRow1Data hph (p := ⟨s.currentCharIndex.toNat, hlt⟩) rfl]
    by_cases hlast : 32 ≤ s.currentCharIndex.toNat + 1
    · refine Or.inl ⟨by omega, if_pos (hend.2 hlast), ?_⟩
      simp only [hsucc, Nat.succ_ne_zero, ↓reduceIte]
      omega
    · refine Or.inr (Or.inr (Or.inr ⟨by omega, if_neg (fun h => hlast (hend.1 h)), ?_, ?_⟩))
      · simp only [hsucc]
        omega
      · simp only [List.foldl_cons, List.foldl_nil, exec_data, hsucc]
        omega

private theorem transfers_lcdService1kHz {n : Nat} {s : Lcd} {a : Nat} (h : RefreshAt n s a) :
    (lcdService1kHz s).2 = [transferAt (n % 34) s] ∧
      (lcdService1kHz s).1.millisecondCounter = s.millisecondCounter + 1 := by
  rcases h with ⟨hn, hph, -⟩ | ⟨h1, h16, hph, hidx, -⟩ | ⟨hn, hph, -⟩ | ⟨h18, hph, hidx, -⟩
  · rw [lcdService1kHz_of_setRow0Address hph, hn]
    exact ⟨rfl, rfl⟩
  · have hcell : cellOf (n % 34) = some ⟨s.currentCharIndex.toNat, by omega⟩ := by
      have hp : s.currentCharIndex.toNat = n % 34 - 1 := by omega
      simp only [cellOf, h1, h16, and_self, ↓reduceDIte, hp]
    rw [lcdService1kHz_of_writeRow0Data hph (p := ⟨s.currentCharIndex.toNat, by omega⟩) rfl]
    simp only [transferAt, hcell, and_self]
  · rw [lcdService1kHz_of_setRow1Address hph, hn]
    exact ⟨rfl, rfl⟩
  · have hcell : cellOf (n % 34) = some ⟨s.currentCharIndex.toNat, by omega⟩ := by
      have hp : s.currentCharIndex.toNat = n % 34 - 2 := by omega
      have hrow : ¬ (1 ≤ n % 34 ∧ n % 34 ≤ 16) := by omega
      have hrow1 : 18 ≤ n % 34 ∧ n % 34 ≤ 33 := by omega
      simp only [cellOf, hrow, hrow1, and_self, ↓reduceDIte, hp]
    rw [lcdService1kHz_of_writeRow1Data hph (p := ⟨s.currentCharIndex.toNat, by omega⟩) rfl]
    simp only [transferAt, hcell, and_self]

private theorem addressCounter_of_cellOf {n : Nat} {s : Lcd} {a : Nat} (h : RefreshAt n s a) {c : Fin 32}
    (hc : cellOf (n % 34) = some c) : a = ddramAddress c.val := by
  unfold cellOf at hc
  unfold ddramAddress
  split at hc
  · obtain rfl := Option.some.inj hc
    rcases h with ⟨hn, -⟩ | ⟨-, -, -, hidx, hac⟩ | ⟨hn, -⟩ | ⟨h18, -⟩
    · omega
    · simp only
      rw [if_pos (by omega)]
      omega
    · omega
    · omega
  split at hc
  · obtain rfl := Option.some.inj hc
    rcases h with ⟨hn, -⟩ | ⟨-, h16, -⟩ | ⟨hn, -⟩ | ⟨h18, -, hidx, hac⟩
    · omega
    · omega
    · omega
    · simp only
      rw [if_neg (by omega)]
      omega
  · cases hc

/-- One call of the service routine: the refresh goes from call `n` to call `n + 1`, the scheduled transfer is sent,
and the panel stores exactly the character of the scheduled cell. -/
theorem lcdService1kHz_step {n : Nat} {s : Lcd} {p : Hd44780} (h : RefreshAt n s p.addressCounter) :
    RefreshAt (n + 1) (lcdService1kHz s).1 ((lcdService1kHz s).2.foldl Hd44780.exec p).addressCounter ∧
    (lcdService1kHz s).2 = [transferAt (n % 34) s] ∧
    p.stores (lcdService1kHz s).2 =
      ((cellOf (n % 34)).map fun c => (ddramAddress c.val, shownCharacter s c)).toList ∧
    ((lcdService1kHz s).2.foldl Hd44780.exec p).ddram = Raster.storeAll p.ddram (p.stores (lcdService1kHz s).2) ∧
    (lcdService1kHz s).1.millisecondCounter = s.millisecondCounter + 1 := by
  obtain ⟨hsend, hms⟩ := transfers_lcdService1kHz h
  refine ⟨refreshAt_lcdService1kHz h, hsend, ?_, ?_, hms⟩
  · rw [hsend, transferAt]
    rcases hcell : cellOf (n % 34) with _ | c
    · rfl
    · simp only [Option.map_some, ← addressCounter_of_cellOf h hcell]
      rfl
  · rw [hsend, transferAt]
    rcases hcell : cellOf (n % 34) with _ | c
    · -- a command that sets an address leaves the memory alone
      by_cases h0 : n % 34 = 0
      · simp only [h0, ↓reduceIte, List.foldl_cons, List.foldl_nil, exec_setAddress p hd44780SetRow0Address (by decide)]
        rfl
      · simp only [h0, ↓reduceIte, List.foldl_cons, List.foldl_nil, exec_setAddress p hd44780SetRow1Address (by decide)]
        rfl
    · rfl

end LcdKeypad
