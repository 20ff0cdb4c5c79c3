import LcdKeypad.General.BitSet
import LcdKeypad.Bench
import LcdKeypad.LcdPrint
import LcdKeypad.Refresh

/-!
# The blink mask is a set of positions

`blink_mask` stands for the set of the positions whose bit is set (`blinkSet`).  `LCD_SetBlink` inserts its position,
`LCD_ClearBlink` erases it, `LCD_Init` and `LCD_ClearAllBlink` empty the set, and no other call changes it
(`blinkSet_run_events`), also when service calls run inside the call.  So `LCD_GetBlink` answers 1 exactly for the
positions below 32 for which the last call that decides about them is `LCD_SetBlink`.
-/

namespace LcdKeypad

open BitSet

def blinkSet (s : Lcd) : Set UInt8 := {p | p.toNat ∈ members s.blinkMask.toBitVec}

theorem mem_blinkSet {p : UInt8} {s : Lcd} : p ∈ blinkSet s ↔ p.toNat ∈ members s.blinkMask.toBitVec := Iff.rfl

/-! ### The blink functions -/

theorem lt_of_mem_blinkSet {p : UInt8} {s : Lcd} (h : p ∈ blinkSet s) : p < lcdTotalChars :=
  UInt8.lt_iff_toNat_lt.2 (lt_of_mem_members h)

/-- A shift count below 32 is taken as it is. -/
private theorem shiftCount_toNat {position : UInt8} (h : position < lcdTotalChars) :
    (position.toUInt32.toBitVec % 32).toNat = position.toNat := by
  have hlt : position.toNat < 32 := UInt8.lt_iff_toNat_lt.1 h
  simp
  omega

private theorem toBitVec_one_shiftLeft {position : UInt8} (h : position < lcdTotalChars) :
    ((1 : UInt32) <<< position.toUInt32).toBitVec = 1#32 <<< position.toNat := by
  rw [UInt32.toBitVec_shiftLeft, BitVec.shiftLeft_eq', shiftCount_toNat h]
  rfl

private theorem toBitVec_shiftRight {position : UInt8} (h : position < lcdTotalChars) (mask : UInt32) :
    (mask >>> position.toUInt32).toBitVec = mask.toBitVec >>> position.toNat := by
  rw [UInt32.toBitVec_shiftRight, BitVec.ushiftRight_eq', shiftCount_toNat h]

theorem lcdGetBlink_of_lt {p : UInt8} (h : p < lcdTotalChars) (s : Lcd) :
    lcdGetBlink p s = if s.blinkMask.toBitVec.getLsbD p.toNat then 1 else 0 := by
  have hle : ¬ lcdTotalChars ≤ p := UInt8.not_le.2 h
  have hbit : (s.blinkMask >>> p.toUInt32) &&& 1 = if s.blinkMask.toBitVec.getLsbD p.toNat then 1 else 0 := by
    apply UInt32.toBitVec_inj.1
    have e := ushiftRight_and_one s.blinkMask.toBitVec p.toNat
    rw [← toBitVec_shiftRight h] at e
    refine e.trans ?_
    split <;> rfl
  rw [lcdGetBlink, if_neg hle, hbit]
  split <;> rfl

theorem lcdGetBlink_of_out_of_range {p : UInt8} (h : lcdTotalChars ≤ p) (s : Lcd) : lcdGetBlink p s = 0 :=
  if_pos h

theorem lcdGetBlink_eq_one_iff (p : UInt8) (s : Lcd) : lcdGetBlink p s = 1 ↔ p ∈ blinkSet s := by
  by_cases h : p < lcdTotalChars
  · rw [lcdGetBlink_of_lt h]
    simp [blinkSet]
  · rw [lcdGetBlink_of_out_of_range (UInt8.not_lt.1 h)]
    constructor
    · intro h0
      simp at h0
    · intro hmem
      exact absurd (lt_of_mem_blinkSet hmem) h

theorem lcdGetBlink_eq_zero_or_one (p : UInt8) (s : Lcd) : lcdGetBlink p s = 0 ∨ lcdGetBlink p s = 1 := by
  by_cases h : p < lcdTotalChars
  · rw [lcdGetBlink_of_lt h]
    split
    · exact Or.inr rfl
    · exact Or.inl rfl
  · exact Or.inl (lcdGetBlink_of_out_of_range (UInt8.not_lt.1 h) s)

theorem lcdGetBlink_eq_zero_iff (p : UInt8) (s : Lcd) : lcdGetBlink p s = 0 ↔ p ∉ blinkSet s := by
  rw [← lcdGetBlink_eq_one_iff]
  rcases lcdGetBlink_eq_zero_or_one p s with h | h <;> simp [h]

theorem lcdGetBlink_congr {p : UInt8} {s s' : Lcd} (h : p ∈ blinkSet s ↔ p ∈ blinkSet s') :
    lcdGetBlink p s = lcdGetBlink p s' := by
  rcases lcdGetBlink_eq_zero_or_one p s' with h' | h'
  · rw [h', lcdGetBlink_eq_zero_iff, h]
    exact (lcdGetBlink_eq_zero_iff p s').1 h'
  · rw [h', lcdGetBlink_eq_one_iff, h]
    exact (lcdGetBlink_eq_one_iff p s').1 h'

theorem blinkSet_lcdSetBlink {q : UInt8} (h : q < lcdTotalChars) (s : Lcd) :
    blinkSet (lcdSetBlink q s) = insert q (blinkSet s) := by
  have hlt : q.toNat < 32 := UInt8.lt_iff_toNat_lt.1 h
  ext p
  rw [lcdSetBlink, if_pos h, mem_blinkSet, UInt32.toBitVec_or, toBitVec_one_shiftLeft h,
    members_or_one_shiftLeft _ hlt, Set.mem_insert_iff, Set.mem_insert_iff, UInt8.toNat_inj, mem_blinkSet]

theorem blinkSet_lcdClearBlink {q : UInt8} (h : q < lcdTotalChars) (s : Lcd) :
    blinkSet (lcdClearBlink q s) = blinkSet s \ {q} := by
  have hlt : q.toNat < 32 := UInt8.lt_iff_toNat_lt.1 h
  ext p
  rw [lcdClearBlink, if_pos h, mem_blinkSet, UInt32.toBitVec_and, UInt32.toBitVec_not, toBitVec_one_shiftLeft h,
    members_and_not_one_shiftLeft _ hlt, Set.mem_sdiff, Set.mem_sdiff, Set.mem_singleton_iff, Set.mem_singleton_iff,
    UInt8.toNat_inj, mem_blinkSet]

theorem lcdSetBlink_of_out_of_range {q : UInt8} (h : lcdTotalChars ≤ q) (s : Lcd) : lcdSetBlink q s = s := by
  have hlt : ¬ q < lcdTotalChars := UInt8.not_lt.2 h
  rw [lcdSetBlink, if_neg hlt]

theorem lcdClearBlink_of_out_of_range {q : UInt8} (h : lcdTotalChars ≤ q) (s : Lcd) : lcdClearBlink q s = s := by
  have hlt : ¬ q < lcdTotalChars := UInt8.not_lt.2 h
  rw [lcdClearBlink, if_neg hlt]

theorem blinkSet_of_blinkMask_zero {s : Lcd} (h : s.blinkMask = 0) : blinkSet s = ∅ := by
  ext p
  simp [mem_blinkSet, h]

theorem blinkSet_congr {s s' : Lcd} (h : s.blinkMask = s'.blinkMask) : blinkSet s = blinkSet s' := by
  rw [blinkSet, h, blinkSet]

/-! ### Calls -/

/-- What a call does to the set of blinking positions. -/
def ApiCall.blinkOp : ApiCall → Option (SetOp UInt8)
  | .init => some .clear
  | .clearAllBlink => some .clear
  | .setBlink position => if position < lcdTotalChars then some (.insert position) else none
  | .clearBlink position => if position < lcdTotalChars then some (.erase position) else none
  | _ => none

/-- The calls that decide whether the position `p` blinks: `LCD_Init`, `LCD_ClearAllBlink`, `LCD_SetBlink(p)` and
`LCD_ClearBlink(p)`. -/
def ApiCall.decidesBlink (p : UInt8) : ApiCall → Bool
  | .init => true
  | .clearAllBlink => true
  | .setBlink position => decide (position = p)
  | .clearBlink position => decide (position = p)
  | _ => false

def lastBlinkCall (p : UInt8) (calls : List ApiCall) : Option ApiCall :=
  (calls.filter (ApiCall.decidesBlink p)).getLast?

/-- The parameter `position` of the calls that have one. -/
def ApiCall.position? : ApiCall → Option UInt8
  | .setChar _ position => some position
  | .print _ _ position _ => some position
  | .printStr _ position _ => some position
  | .setBlink position => some position
  | .clearBlink position => some position
  | _ => none

/-- The calls of the blink API that write. -/
def ApiCall.IsBlink : ApiCall → Prop
  | .setBlink _ => True
  | .clearBlink _ => True
  | .clearAllBlink => True
  | _ => False

theorem mem_interleaved {between : Nat → Nat} {cs : List CellStore} {e : LcdEvent} (h : e ∈ interleaved between cs) :
    (∃ c, e = .store c) ∨ e = .service := by
  rw [interleaved, List.mem_flatMap] at h
  obtain ⟨c, -, he⟩ := h
  rcases List.mem_cons.1 he with rfl | he
  · exact Or.inl ⟨c.1, rfl⟩
  · exact Or.inr (List.eq_of_mem_replicate he)

/-- Stores and service calls leave the mask alone. -/
theorem blinkMask_run {es : List LcdEvent} (h : ∀ e ∈ es, (∃ c, e = .store c) ∨ e = .service) (b : Bench) :
    (b.run es).lcd.blinkMask = b.lcd.blinkMask := by
  induction es generalizing b with
  | nil => rfl
  | cons e es ih =>
    have hstep : (b.step e).lcd.blinkMask = b.lcd.blinkMask := by
      rcases h e (List.mem_cons_self ..) with ⟨c, rfl⟩ | rfl
      · rfl
      · exact (lcdService1kHz_frame b.lcd).2
    have htail := ih (fun e' he' => h e' (List.mem_cons_of_mem _ he')) (b.step e)
    exact htail.trans hstep

theorem blinkSet_run_interleaved (between : Nat → Nat) (cs : List CellStore) (b : Bench) :
    blinkSet (b.run (interleaved between cs)).lcd = blinkSet b.lcd :=
  blinkSet_congr (blinkMask_run (fun _ he => mem_interleaved he) b)

theorem run_events_setBlink (b : Bench) (position : UInt8) :
    b.run (ApiCall.setBlink position).events = { b with lcd := lcdSetBlink position b.lcd } := rfl

theorem run_events_clearBlink (b : Bench) (position : UInt8) :
    b.run (ApiCall.clearBlink position).events = { b with lcd := lcdClearBlink position b.lcd } := rfl

theorem blinkSet_run_events (b : Bench) (call : ApiCall) :
    blinkSet (b.run call.events).lcd = step ApiCall.blinkOp (blinkSet b.lcd) call := by
  cases call with
  | init => exact blinkSet_of_blinkMask_zero rfl
  | service => exact blinkSet_congr (lcdService1kHz_frame b.lcd).2
  | setChar character position => exact blinkSet_run_interleaved (fun _ => 0) _ b
  | print text length position between => exact blinkSet_run_interleaved between _ b
  | printStr text position between => exact blinkSet_run_interleaved between _ b
  | clear between => exact blinkSet_run_interleaved between _ b
  | setBlink position =>
    rw [run_events_setBlink]
    by_cases h : position < lcdTotalChars
    · have hop : (ApiCall.setBlink position).blinkOp = some (.insert position) := if_pos h
      rw [blinkSet_lcdSetBlink h, step_of_eq_some hop, SetOp.apply]
    · have hop : (ApiCall.setBlink position).blinkOp = none := if_neg h
      rw [lcdSetBlink_of_out_of_range (UInt8.not_lt.1 h), step_of_eq_none hop]
  | clearBlink position =>
    rw [run_events_clearBlink]
    by_cases h : position < lcdTotalChars
    · have hop : (ApiCall.clearBlink position).blinkOp = some (.erase position) := if_pos h
      rw [blinkSet_lcdClearBlink h, step_of_eq_some hop, SetOp.apply]
    · have hop : (ApiCall.clearBlink position).blinkOp = none := if_neg h
      rw [lcdClearBlink_of_out_of_range (UInt8.not_lt.1 h), step_of_eq_none hop]
  | clearAllBlink => exact blinkSet_of_blinkMask_zero rfl

/-- For a position of the display the set operations that concern it are those of the deciding calls. -/
theorem concerns_blinkOp {p : UInt8} (hp : p < lcdTotalChars) :
    concerns ApiCall.blinkOp p = ApiCall.decidesBlink p := by
  funext call
  cases call with
  | setBlink position =>
    by_cases h : position < lcdTotalChars
    · simp [concerns, ApiCall.blinkOp, h, ApiCall.decidesBlink, SetOp.concerns]
    · have hne : position ≠ p := by
        rintro rfl
        exact h hp
      simp [concerns, ApiCall.blinkOp, h, ApiCall.decidesBlink, hne]
  | clearBlink position =>
    by_cases h : position < lcdTotalChars
    · simp [concerns, ApiCall.blinkOp, h, ApiCall.decidesBlink, SetOp.concerns]
    · have hne : position ≠ p := by
        rintro rfl
        exact h hp
      simp [concerns, ApiCall.blinkOp, h, ApiCall.decidesBlink, hne]
  | _ => rfl

theorem blinkOp_eq_insert_iff {p : UInt8} (hp : p < lcdTotalChars) (call : ApiCall) :
    call.blinkOp = some (.insert p) ↔ call = .setBlink p := by
  constructor
  · intro h
    cases call with
    | setBlink position =>
      rw [ApiCall.blinkOp] at h
      split at h
      · simpa using h
      · cases h
    | clearBlink position =>
      rw [ApiCall.blinkOp] at h
      split at h <;> simp at h
    | _ => simp [ApiCall.blinkOp] at h
  · rintro rfl
    exact if_pos hp

/-- After `LCD_Init` and any calls the set holds the positions below 32 whose last deciding call is
`LCD_SetBlink`. -/
theorem mem_blinkSet_run_iff (b : Bench) (calls : List ApiCall) (p : UInt8) :
    p ∈ blinkSet (b.run ((.init :: calls).flatMap ApiCall.events)).lcd ↔
      p < lcdTotalChars ∧ lastBlinkCall p (.init :: calls) = some (.setBlink p) := by
  by_cases hp : p < lcdTotalChars
  · have hrun : b.run ((.init :: calls).flatMap ApiCall.events) =
        (.init :: calls).foldl (fun b call => b.run call.events) b := List.foldl_flatMap ..
    have hne : (ApiCall.init :: calls).filter (ApiCall.decidesBlink p) ≠ [] := by simp [ApiCall.decidesBlink]
    rw [hrun, run_of_simulation (fun b : Bench => blinkSet b.lcd) blinkSet_run_events, mem_run_iff,
      concerns_blinkOp hp]
    constructor
    · rintro (⟨call, hlast, hinsert⟩ | ⟨hnil, -⟩)
      · rw [(blinkOp_eq_insert_iff hp call).1 hinsert] at hlast
        exact ⟨hp, hlast⟩
      · exact absurd hnil hne
    · rintro ⟨-, hlast⟩
      exact Or.inl ⟨.setBlink p, hlast, (blinkOp_eq_insert_iff hp _).2 rfl⟩
  · constructor
    · intro hmem
      exact absurd (lt_of_mem_blinkSet hmem) hp
    · rintro ⟨h, -⟩
      exact absurd h hp

theorem decidesBlink_of_ne {call : ApiCall} {p q : UInt8} (hq : call.position? = some q) (hp : p ≠ q) :
    call.decidesBlink p = false := by
  cases call with
  | setBlink position =>
    obtain rfl : position = q := by simpa [ApiCall.position?] using hq
    simp [ApiCall.decidesBlink, hp.symm]
  | clearBlink position =>
    obtain rfl : position = q := by simpa [ApiCall.position?] using hq
    simp [ApiCall.decidesBlink, hp.symm]
  | init => simp [ApiCall.position?] at hq
  | clearAllBlink => simp [ApiCall.position?] at hq
  | _ => rfl

/-- A call leaves every position alone that is not its own. -/
theorem mem_blinkSet_run_events_of_ne {call : ApiCall} {p q : UInt8} (hq : call.position? = some q) (hp : p ≠ q)
    (b : Bench) : p ∈ blinkSet (b.run call.events).lcd ↔ p ∈ blinkSet b.lcd := by
  by_cases h : p < lcdTotalChars
  · rw [blinkSet_run_events]
    apply mem_step_of_not_concerns
    rw [concerns_blinkOp h]
    exact decidesBlink_of_ne hq hp
  · constructor
    · intro hmem
      exact absurd (lt_of_mem_blinkSet hmem) h
    · intro hmem
      exact absurd (lt_of_mem_blinkSet hmem) h

/-- A call whose position is out of range does nothing. -/
theorem run_events_of_out_of_range {call : ApiCall} {q : UInt8} (hq : call.position? = some q)
    (h : lcdTotalChars ≤ q) (b : Bench) : b.run call.events = b := by
  have hlt : ¬ q < lcdTotalChars := UInt8.not_lt.2 h
  cases call with
  | setChar character position =>
    obtain rfl : position = q := by simpa [ApiCall.position?] using hq
    rw [ApiCall.events, lcdSetCharStores, if_neg hlt]
    rfl
  | print text length position between =>
    obtain rfl : position = q := by simpa [ApiCall.position?] using hq
    rw [ApiCall.events, lcdPrintStores_of_out_of_range h]
    rfl
  | printStr text position between =>
    obtain rfl : position = q := by simpa [ApiCall.position?] using hq
    rw [ApiCall.events]
    cases text with
    | none => rfl
    | some text =>
      rw [lcdPrintStrStores, lcdPrintStores_of_out_of_range h]
      rfl
  | setBlink position =>
    obtain rfl : position = q := by simpa [ApiCall.position?] using hq
    rw [run_events_setBlink, lcdSetBlink_of_out_of_range h]
  | clearBlink position =>
    obtain rfl : position = q := by simpa [ApiCall.position?] using hq
    rw [run_events_clearBlink, lcdClearBlink_of_out_of_range h]
  | _ => simp [ApiCall.position?] at hq

/-- The blink calls change nothing but the mask. -/
theorem run_events_of_isBlink {call : ApiCall} (h : call.IsBlink) (b : Bench) :
    b.run call.events = { b with lcd := { b.lcd with blinkMask := (b.run call.events).lcd.blinkMask } } := by
  cases call with
  | setBlink position =>
    rw [run_events_setBlink, lcdSetBlink]
    split <;> rfl
  | clearBlink position =>
    rw [run_events_clearBlink, lcdClearBlink]
    split <;> rfl
  | clearAllBlink => rfl
  | _ => cases h

/-- The blink mask implements a set of positions.  After `LCD_Init` and any calls, whatever positions they are given
and wherever service calls interrupt them, `LCD_GetBlink(p)` answers 1 if `p` is below 32 and the last of the calls
that decide about `p` is `LCD_SetBlink(p)`, and 0 otherwise.  No call for one position changes the answer for
another, a call for a position out of range changes nothing, and the blink calls change nothing but the mask. -/
theorem lcdGetBlink_iff_lastBlinkCall (b : Bench) :
    (∀ (calls : List ApiCall) (p : UInt8),
      (lcdGetBlink p (b.run ((.init :: calls).flatMap ApiCall.events)).lcd = 1 ↔
        p < lcdTotalChars ∧ lastBlinkCall p (.init :: calls) = some (.setBlink p)) ∧
      (lcdGetBlink p (b.run ((.init :: calls).flatMap ApiCall.events)).lcd = 0 ↔
        ¬ (p < lcdTotalChars ∧ lastBlinkCall p (.init :: calls) = some (.setBlink p)))) ∧
    (∀ (call : ApiCall) (q : UInt8), call.position? = some q →
      (∀ p, p ≠ q → lcdGetBlink p (b.run call.events).lcd = lcdGetBlink p b.lcd) ∧
      (lcdTotalChars ≤ q → b.run call.events = b)) ∧
    ∀ call : ApiCall, call.IsBlink →
      b.run call.events = { b with lcd := { b.lcd with blinkMask := (b.run call.events).lcd.blinkMask } } := by
  refine ⟨fun calls p => ?_, fun call q hq => ⟨fun p hp => ?_, fun h => ?_⟩, fun call h => ?_⟩
  · rw [← mem_blinkSet_run_iff b]
    exact ⟨lcdGetBlink_eq_one_iff p _, lcdGetBlink_eq_zero_iff p _⟩
  · exact lcdGetBlink_congr (mem_blinkSet_run_events_of_ne hq hp b)
  · exact run_events_of_out_of_range hq h b
  · exact run_events_of_isBlink h b

/-- A position that differs by the width of the mask is another position. -/
example : lastBlinkCall 3 [.init, .setBlink 3, .clearBlink 35, .setBlink 4] = some (.setBlink 3) := rfl

end LcdKeypad
